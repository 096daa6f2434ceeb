import Mathlib.Data.List.Sort
import Mathlib.Data.UInt

namespace OsslScripts
namespace Mprofile

/-!
# Symbol tables

`ksyms.c`: the table of function symbols that `kelf_open` builds up over several
libraries, and the lookup of a program counter in it.  libelf delivers the symbol
table of a library as a list, with the name of each symbol if it is readable.

`qsort` and `bsearch` are arguments.  The C standard leaves open in which order
`qsort` puts equal elements and which of several matching elements `bsearch`
returns.

For the first library the loop of `kelf_open` runs over its symbol table.  For a
later one it starts at `nsymb`, the number of symbols collected so far, so it
skips as many entries at the front of the new symbol table.
-/

/-- `STT_FUNC` -/
def sttFunc : UInt8 := 2

/-- `GELF_ST_TYPE` -/
def gelfStType (stInfo : UInt8) : UInt8 := stInfo &&& 0xf

/-- `GElf_Sym`, with the name that `elf_strptr` finds for it. -/
structure GElfSym where
  stName : Option (List Char)
  stInfo : UInt8
  stValue : UInt64
  stSize : UInt64
deriving DecidableEq, Repr

/-- `struct sym` -/
structure Sym where
  symName : List Char
  symValue : UInt64
  symSize : UInt64
deriving DecidableEq, Repr

/-- The function symbol that a symbol table entry gives, if it is one and has a name. -/
def functionOf (base : UInt64) (sym : GElfSym) : Option Sym :=
  if gelfStType sym.stInfo ≠ sttFunc then none
  else sym.stName.map (fun name => ⟨name, sym.stValue + base, sym.stSize⟩)

/-- `gelf_getsym`: nothing beyond the last entry. -/
def gelfGetsym (data : List GElfSym) (i : Nat) : Option GElfSym := data[i]?

/-- The loop of `kelf_open` for the indices from `i` on. -/
def loadLoop (data : List GElfSym) (base : UInt64) : (room i : Nat) -> List Sym -> List Sym
  | 0, _, table => table
  | room + 1, i, table =>
      match gelfGetsym data i with
      | none => loadLoop data base room (i + 1) table
      | some sym =>
          match functionOf base sym with
          | none => loadLoop data base room (i + 1) table
          | some entry => loadLoop data base room (i + 1) (table ++ [entry])

/-- `sym_compare_sort` -/
def symCompareSort (a b : Sym) : Int :=
  if a.symValue < b.symValue then -1 else if b.symValue < a.symValue then 1 else 0

/-- `sym_compare_search` for a key with this value. -/
def symCompareSearch (key : UInt64) (entry : Sym) : Int :=
  if key < entry.symValue then -1
  else if entry.symValue + entry.symSize ≤ key then 1 else 0

/-- `qsort` with `sym_compare_sort` -/
structure Qsort where
  sort : List Sym -> List Sym
  perm : forall table, (sort table).Perm table
  sorted : forall table, (sort table).Pairwise (fun a b => symCompareSort a b ≤ 0)

/-- `bsearch` with `sym_compare_search`: what it finds is in the table and matches. -/
structure Bsearch where
  search : UInt64 -> List Sym -> Option Sym
  found : forall key table entry, search key table = some entry ->
    entry ∈ table ∧ symCompareSearch key entry = 0

/-- The approximation of sizes: a symbol without a size extends to the next one. -/
def guessSizes : List Sym -> List Sym
  | [] => []
  | [last] => [last]
  | sym :: next :: rest =>
      (if sym.symSize ≠ 0 then sym
        else { sym with symSize := next.symValue - sym.symValue }) :: guessSizes (next :: rest)

/-- `kelf_open`.  `elf` is the symbol table of the file, if it has one, and
`syms` the table so far, which is null before the first library. -/
def kelfOpen (qsort : Qsort) (elf : Option (List GElfSym)) (syms : Option (List Sym))
    (base : UInt64) : Option (List Sym) :=
  match elf with
  | none => syms
  | some data =>
      let table := syms.getD []
      some (guessSizes (qsort.sort (loadLoop data base data.length table.length table)))

/-- `struct shlib`, with what its file holds. -/
structure Shlib where
  shlElf : Option (List GElfSym)
  shlBase : UInt64
deriving DecidableEq, Repr

/-- The last loop of `load_syms`. -/
def loadSyms (qsort : Qsort) (shlibs : List Shlib) : Option (List Sym) :=
  shlibs.foldl (fun syms shlib => kelfOpen qsort shlib.shlElf syms shlib.shlBase) none

/-- The symbol and the offset that `kelf_snprintsym` prints for `pc`, with `off`
zero.  Without a symbol it prints the bare address. -/
def kelfResolve (bsearch : Bsearch) (syms : Option (List Sym)) (pc : UInt64) :
    Option (Sym × UInt64) :=
  match syms with
  | none => none
  | some table => (bsearch.search pc table).map (fun entry => (entry, pc - entry.symValue))

/-! ## Which symbols are loaded -/

namespace Shlib

/-- All function symbols of a library. -/
def functions (shlib : Shlib) : List Sym :=
  (shlib.shlElf.getD []).filterMap (functionOf shlib.shlBase)

/-- The function symbols after the first `skipped` entries. -/
def functionsFrom (shlib : Shlib) (skipped : Nat) : List Sym :=
  ((shlib.shlElf.getD []).drop skipped).filterMap (functionOf shlib.shlBase)

end Shlib

/-- The symbols that are kept, library by library: from a later library those
behind as many entries as there are symbols before it. -/
def keptSyms (shlibs : List Shlib) : List Sym :=
  shlibs.foldl (fun kept shlib => kept ++ shlib.functionsFrom kept.length) []

/-- What identifies a symbol: its name and its address. -/
def Sym.place (sym : Sym) : List Char × UInt64 := (sym.symName, sym.symValue)

section Loading

variable {data : List GElfSym} {base : UInt64} {table : List Sym}

theorem loadLoop_eq (data : List GElfSym) (base : UInt64) (room i : Nat) (table : List Sym) :
    loadLoop data base room i table = table ++ ((data.drop i).take room).filterMap
      (functionOf base) := by
  induction room generalizing i table with
  | zero => rw [loadLoop, List.take_zero, List.filterMap_nil, List.append_nil]
  | succ room inductionHypothesis =>
      rw [loadLoop, gelfGetsym]
      cases found : data[i]? with
      | none =>
          have beyond : data.drop i = [] :=
            List.drop_eq_nil_of_le (List.getElem?_eq_none_iff.mp found)
          have further : data.drop (i + 1) = [] := by
            rw [← List.tail_drop, beyond, List.tail_nil]
          simp only [inductionHypothesis, beyond, further, List.take_nil]
      | some sym =>
          rcases List.getElem?_eq_some_iff.mp found with ⟨inside, rfl⟩
          rw [List.drop_eq_getElem_cons inside, List.take_succ_cons, List.filterMap_cons]
          cases entry : functionOf base data[i] with
          | none => simp only [entry, inductionHypothesis]
          | some function =>
              simp only [entry, inductionHypothesis, List.append_assoc, List.singleton_append]

/-- The loop collects the function symbols behind the entries it skips. -/
theorem loadLoop_whole (data : List GElfSym) (base : UInt64) (table : List Sym) :
    loadLoop data base data.length table.length table =
      table ++ (data.drop table.length).filterMap (functionOf base) := by
  rw [loadLoop_eq, List.take_of_length_le (by rw [List.length_drop]; omega)]

/-- Guessing sizes keeps names and addresses in place. -/
theorem map_place_guessSizes (table : List Sym) :
    (guessSizes table).map Sym.place = table.map Sym.place := by
  induction table with
  | nil => rfl
  | cons sym rest inductionHypothesis =>
      cases rest with
      | nil => rfl
      | cons next rest =>
          rw [guessSizes, List.map_cons, inductionHypothesis, List.map_cons]
          congr 1
          split_ifs <;> rfl

theorem symCompareSort_le (a b : Sym) : symCompareSort a b ≤ 0 ↔ a.symValue ≤ b.symValue := by
  unfold symCompareSort
  rw [← UInt64.not_lt]
  split_ifs with less greater
  · exact ⟨fun _ => UInt64.lt_asymm less, fun _ => by decide⟩
  · exact ⟨fun impossible => absurd impossible (by decide), fun notLess => absurd greater notLess⟩
  · exact ⟨fun _ => greater, fun _ => le_refl 0⟩

/-- The table is in the order of the addresses, also after the guesses. -/
theorem sorted_places {places : List Sym} (qsort : Qsort) (table : List Sym)
    (same : places = guessSizes (qsort.sort table)) :
    (places.map Sym.symValue).Pairwise (fun a b => a ≤ b) := by
  have values : places.map Sym.symValue = (qsort.sort table).map Sym.symValue := by
    have mapped := congrArg (List.map Prod.snd) (map_place_guessSizes (qsort.sort table))
    rw [List.map_map, List.map_map] at mapped
    rw [same]
    exact mapped
  rw [values]
  exact List.pairwise_map.mpr
    ((qsort.sorted table).imp (fun {a b} le => (symCompareSort_le a b).mp le))

end Loading

/-! ## Several libraries -/

section Libraries

variable {qsort : Qsort}

/-- The table of a possibly null pointer. -/
def tableOf (syms : Option (List Sym)) : List Sym := syms.getD []

theorem loadSyms_append (shlibs : List Shlib) (shlib : Shlib) :
    loadSyms qsort (shlibs ++ [shlib]) =
      kelfOpen qsort shlib.shlElf (loadSyms qsort shlibs) shlib.shlBase := by
  unfold loadSyms
  rw [List.foldl_append, List.foldl_cons, List.foldl_nil]

theorem keptSyms_append (shlibs : List Shlib) (shlib : Shlib) :
    keptSyms (shlibs ++ [shlib]) =
      keptSyms shlibs ++ shlib.functionsFrom (keptSyms shlibs).length := by
  unfold keptSyms
  rw [List.foldl_append, List.foldl_cons, List.foldl_nil]

/-- One call of `kelf_open` adds the kept symbols of the library. -/
theorem perm_kelfOpen (shlib : Shlib) (syms : Option (List Sym)) :
    ((tableOf (kelfOpen qsort shlib.shlElf syms shlib.shlBase)).map Sym.place).Perm
      ((tableOf syms ++ shlib.functionsFrom (tableOf syms).length).map Sym.place) := by
  unfold kelfOpen Shlib.functionsFrom tableOf
  cases shlib.shlElf with
  | none => simp
  | some data =>
      simp only [Option.getD_some]
      rw [map_place_guessSizes, loadLoop_whole]
      exact (qsort.perm _).map Sym.place

/-- The table holds the kept symbols, in the order of their addresses. -/
theorem loadSyms_kept (qsort : Qsort) (shlibs : List Shlib) :
    ((tableOf (loadSyms qsort shlibs)).map Sym.place).Perm ((keptSyms shlibs).map Sym.place) ∧
      ((tableOf (loadSyms qsort shlibs)).map Sym.symValue).Pairwise (fun a b => a ≤ b) := by
  induction shlibs using List.reverseRecOn with
  | nil => exact ⟨List.Perm.refl _, List.Pairwise.nil⟩
  | append_singleton shlibs shlib inductionHypothesis =>
      rcases inductionHypothesis with ⟨perm, sorted⟩
      have lengths : (tableOf (loadSyms qsort shlibs)).length = (keptSyms shlibs).length := by
        have equal := perm.length_eq
        rwa [List.length_map, List.length_map] at equal
      rw [loadSyms_append, keptSyms_append]
      constructor
      · refine (perm_kelfOpen shlib _).trans ?_
        rw [lengths, List.map_append, List.map_append]
        exact perm.append_right _
      · unfold kelfOpen
        cases shlib.shlElf with
        | none => exact sorted
        | some data => exact sorted_places qsort _ rfl

/-- No function symbol is lost: the table has those of all libraries, in the
order of their addresses. -/
structure AllLoaded (qsort : Qsort) (shlibs : List Shlib) : Prop where
  union : ((tableOf (loadSyms qsort shlibs)).map Sym.place).Perm
    ((shlibs.flatMap Shlib.functions).map Sym.place)
  ascending : ((tableOf (loadSyms qsort shlibs)).map Sym.symValue).Pairwise (fun a b => a ≤ b)

/-- Behind `loaded` function symbols: no library has a function symbol among its
first entries, as many of them as there are function symbols before it. -/
def NothingSkipped : (loaded : Nat) -> List Shlib -> Prop
  | _, [] => True
  | loaded, shlib :: rest =>
      (forall sym, sym ∈ (shlib.shlElf.getD []).take loaded ->
        functionOf shlib.shlBase sym = none) ∧
        NothingSkipped (loaded + shlib.functions.length) rest

theorem functions_split (shlib : Shlib) (skipped : Nat) :
    shlib.functions =
      ((shlib.shlElf.getD []).take skipped).filterMap (functionOf shlib.shlBase) ++
        shlib.functionsFrom skipped := by
  unfold Shlib.functions Shlib.functionsFrom
  rw [← List.filterMap_append, List.take_append_drop]

theorem functionsFrom_eq_iff (shlib : Shlib) (skipped : Nat) :
    shlib.functionsFrom skipped = shlib.functions ↔
      forall sym, sym ∈ (shlib.shlElf.getD []).take skipped ->
        functionOf shlib.shlBase sym = none := by
  rw [functions_split shlib skipped, eq_comm, List.append_left_eq_self, List.filterMap_eq_nil_iff]

theorem length_functionsFrom (shlib : Shlib) (skipped : Nat) :
    (shlib.functionsFrom skipped).length ≤ shlib.functions.length := by
  rw [functions_split shlib skipped, List.length_append]
  exact Nat.le_add_left _ _

/-- The loop over the libraries, from any table. -/
def keptFrom (kept : List Sym) (shlibs : List Shlib) : List Sym :=
  shlibs.foldl (fun kept shlib => kept ++ shlib.functionsFrom kept.length) kept

theorem length_keptFrom (kept : List Sym) (shlibs : List Shlib) :
    (keptFrom kept shlibs).length ≤ kept.length + (shlibs.flatMap Shlib.functions).length := by
  induction shlibs generalizing kept with
  | nil => exact Nat.le_refl _
  | cons shlib rest inductionHypothesis =>
      have onward := inductionHypothesis (kept ++ shlib.functionsFrom kept.length)
      have here := length_functionsFrom shlib kept.length
      rw [List.flatMap_cons, List.length_append]
      rw [List.length_append] at onward
      change (keptFrom (kept ++ shlib.functionsFrom kept.length) rest).length ≤ _
      omega

/-- Where nothing is skipped everything is kept. -/
theorem keptFrom_eq {shlibs : List Shlib} (kept : List Sym)
    (nothing : NothingSkipped kept.length shlibs) :
    keptFrom kept shlibs = kept ++ shlibs.flatMap Shlib.functions := by
  induction shlibs generalizing kept with
  | nil => exact (List.append_nil kept).symm
  | cons shlib rest inductionHypothesis =>
      have all : shlib.functionsFrom kept.length = shlib.functions :=
        (functionsFrom_eq_iff shlib kept.length).mpr nothing.1
      change keptFrom (kept ++ shlib.functionsFrom kept.length) rest = _
      rw [all, List.flatMap_cons, ← List.append_assoc]
      apply inductionHypothesis (kept ++ shlib.functions)
      rw [List.length_append]
      exact nothing.2

/-- What one library loses no later library makes up for. -/
theorem nothingSkipped_of_length {shlibs : List Shlib} (kept : List Sym)
    (whole : (keptFrom kept shlibs).length =
      kept.length + (shlibs.flatMap Shlib.functions).length) :
    NothingSkipped kept.length shlibs := by
  induction shlibs generalizing kept with
  | nil => trivial
  | cons shlib rest inductionHypothesis =>
      have atMost := length_keptFrom (kept ++ shlib.functionsFrom kept.length) rest
      have here := length_functionsFrom shlib kept.length
      change (keptFrom (kept ++ shlib.functionsFrom kept.length) rest).length = _ at whole
      rw [List.flatMap_cons, List.length_append] at whole
      rw [List.length_append] at atMost
      have sameLength : (shlib.functionsFrom kept.length).length = shlib.functions.length := by
        omega
      have parts := functions_split shlib kept.length
      have noneSkipped : (((shlib.shlElf.getD []).take kept.length).filterMap
          (functionOf shlib.shlBase)).length = 0 := by
        have lengths := congrArg List.length parts
        rw [List.length_append] at lengths
        omega
      refine ⟨List.filterMap_eq_nil_iff.mp (List.eq_nil_of_length_eq_zero noneSkipped), ?_⟩
      have later := inductionHypothesis (kept ++ shlib.functionsFrom kept.length)
        (by rw [whole, List.length_append]; omega)
      rwa [List.length_append, sameLength] at later

/-- Loading several libraries loses no function symbol exactly when nothing is skipped. -/
theorem allLoaded_iff (qsort : Qsort) (shlibs : List Shlib) :
    AllLoaded qsort shlibs ↔ NothingSkipped 0 shlibs := by
  have loaded := loadSyms_kept qsort shlibs
  constructor
  · intro all
    have lengths := (loaded.1.symm.trans all.union).length_eq
    rw [List.length_map, List.length_map] at lengths
    apply nothingSkipped_of_length []
    rw [List.length_nil, Nat.zero_add]
    exact lengths
  · intro nothing
    have complete : keptSyms shlibs = shlibs.flatMap Shlib.functions := by
      have all := keptFrom_eq [] nothing
      rwa [List.nil_append] at all
    refine ⟨?_, loaded.2⟩
    rw [← complete]
    exact loaded.1

end Libraries

/-! ## Two libraries -/

/-- An insertion sort. -/
def insertionQsort : Qsort where
  sort := fun table => table.insertionSort (fun a b => a.symValue ≤ b.symValue)
  perm := fun table => List.perm_insertionSort _ table
  sorted := fun table => (List.pairwise_insertionSort _ table).imp
    (fun {a b} le => (symCompareSort_le a b).mpr le)

/-- The first entry of every symbol table. -/
def undefinedSym : GElfSym := ⟨some [], 0, 0, 0⟩

def functionSym (name : Char) (value size : UInt64) : GElfSym := ⟨some [name], 0x12, value, size⟩

/-- After a library with two functions, the only function of the next one is lost. -/
theorem lostLibrary_not_allLoaded :
    ¬ AllLoaded insertionQsort
      [⟨some [undefinedSym, functionSym 'f' 0x10 0x10, functionSym 'g' 0x20 0x10], 0x1000⟩,
        ⟨some [undefinedSym, functionSym 'h' 0x10 0x10], 0x5000⟩] := by
  intro all
  have lengths := all.union.length_eq
  revert lengths
  decide

end Mprofile
end OsslScripts
