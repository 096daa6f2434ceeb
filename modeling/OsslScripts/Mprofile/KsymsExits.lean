import OsslScripts.Mprofile.Ksyms

namespace OsslScripts
namespace Mprofile

/-!
# Where `kelf_open` gives up

`kelf_open` ends the process if libelf does not know the version it is asked for, and
wherever it gets no memory.  Null counts as no memory also for `reallocarray` of no
elements, which is what glibc returns, so a first library without function symbols ends
the process there.  Where nothing of this happens the table is that of `kelfOpen`.
-/

/-- The calls of `errx` and `err` that `kelf_open` makes. -/
inductive KelfExit where
  | elfVersion
  | syms
  | table
  | symName
  | shrink
deriving DecidableEq, Repr

/-- What libelf and libc answer while a library is opened: whether the version is known, the
blocks are granted (for the names one by one, at the index of the symbol), and the last
`reallocarray` returns a block for this many elements. -/
structure KelfAnswer where
  version : Bool
  symsBlock : Bool
  tableBlock : Bool
  symName : Nat -> Bool
  shrink : Nat -> Bool

/-- Everything is granted, as glibc does it. -/
def KelfAnswer.granted : KelfAnswer := ⟨true, true, true, fun _ => true, fun nsymb => nsymb ≠ 0⟩

namespace Exiting

/-- The loop of `kelf_open`, with the `strdup` of each name. -/
def loadLoop (answer : KelfAnswer) (data : List GElfSym) (base : UInt64) :
    (room i : Nat) -> List Sym -> Except KelfExit (List Sym)
  | 0, _, table => .ok table
  | room + 1, i, table =>
      match gelfGetsym data i with
      | none => loadLoop answer data base room (i + 1) table
      | some sym =>
          match functionOf base sym with
          | none => loadLoop answer data base room (i + 1) table
          | some entry =>
              if answer.symName i then loadLoop answer data base room (i + 1) (table ++ [entry])
              else .error .symName

/-- The memory for the table. -/
def growTable (answer : KelfAnswer) (syms : Option (List Sym)) : Except KelfExit (List Sym) :=
  if syms.isNone ∧ answer.symsBlock = false then .error .syms
  else if answer.tableBlock then .ok (syms.getD []) else .error .table

/-- `kelf_open` -/
def kelfOpen (qsort : Qsort) (answer : KelfAnswer) (elf : Option (List GElfSym))
    (syms : Option (List Sym))
    (base : UInt64) : Except KelfExit (Option (List Sym)) :=
  if answer.version then
    match elf with
    | none => .ok syms
    | some data => do
        let table ← growTable answer syms
        let loaded ← loadLoop answer data base data.length table.length table
        if answer.shrink loaded.length then .ok (some (guessSizes (qsort.sort loaded)))
        else .error .shrink
  else .error .elfVersion

/-- The last loop of `load_syms`. -/
def loadSyms (qsort : Qsort) : Option (List Sym) -> List (Shlib × KelfAnswer) ->
    Except KelfExit (Option (List Sym))
  | syms, [] => .ok syms
  | syms, (shlib, answer) :: rest => do
      let syms ← kelfOpen qsort answer shlib.shlElf syms shlib.shlBase
      loadSyms qsort syms rest

end Exiting

section Opening

variable {qsort : Qsort} {answer : KelfAnswer} {base : UInt64} {syms : Option (List Sym)}

/-- The loop goes through exactly if each function symbol gets its name. -/
theorem exiting_loadLoop_iff {data : List GElfSym} {room i : Nat} {table loaded : List Sym} :
    Exiting.loadLoop answer data base room i table = .ok loaded ↔
      (forall j, i ≤ j -> j < i + room -> forall sym, gelfGetsym data j = some sym ->
        functionOf base sym ≠ none -> answer.symName j = true) ∧
        loadLoop data base room i table = loaded := by
  induction room generalizing i table with
  | zero =>
      rw [Exiting.loadLoop, loadLoop]
      refine ⟨fun same => ⟨?_, Except.ok.inj same⟩, fun both => congrArg Except.ok both.2⟩
      intro j from_ below
      omega
  | succ room inductionHypothesis =>
      -- the condition at the first index, and the one at the others
      have split : (forall j, i ≤ j -> j < i + (room + 1) ->
            forall sym, gelfGetsym data j = some sym ->
            functionOf base sym ≠ none -> answer.symName j = true) ↔
          (forall sym, gelfGetsym data i = some sym -> functionOf base sym ≠ none ->
              answer.symName i = true) ∧
            forall j, i + 1 ≤ j -> j < i + 1 + room -> forall sym, gelfGetsym data j = some sym ->
              functionOf base sym ≠ none -> answer.symName j = true := by
        refine ⟨fun all => ⟨all i (Nat.le_refl i) (by omega),
          fun j from_ below => all j (by omega) (by omega)⟩, fun both j from_ below => ?_⟩
        rcases Nat.eq_or_lt_of_le from_ with rfl | later
        · exact both.1
        · exact both.2 j later (by omega)
      rw [split, Exiting.loadLoop, loadLoop]
      cases found : gelfGetsym data i with
      | none => simp only [reduceCtorEq, false_implies, implies_true, true_and, inductionHypothesis]
      | some sym =>
          cases entry : functionOf base sym with
          | none => simp [inductionHypothesis, entry]
          | some function =>
              by_cases granted : answer.symName i = true
              · simp [inductionHypothesis, entry, granted]
              · simp [granted, entry]

/-- The loop over a whole symbol table.  Beyond the table there is no entry that could want a
name. -/
theorem exiting_loadLoop_whole_iff {data : List GElfSym} {table loaded : List Sym} :
    Exiting.loadLoop answer data base data.length table.length table = .ok loaded ↔
      (forall i, table.length ≤ i -> forall sym, gelfGetsym data i = some sym ->
        functionOf base sym ≠ none -> answer.symName i = true) ∧
        loadLoop data base data.length table.length table = loaded := by
  refine exiting_loadLoop_iff.trans (and_congr_left' ⟨fun all i from_ sym found => ?_,
    fun all i from_ _ => all i from_⟩)
  have inside := (List.getElem?_eq_some_iff.mp found).1
  exact all i from_ (by omega) sym found

/-- Nothing is refused while a library is opened. -/
structure KelfAnswer.Grants (answer : KelfAnswer) (shlib : Shlib)
    (syms : Option (List Sym)) : Prop where
  version : answer.version = true
  symsBlock : shlib.shlElf ≠ none -> syms = none -> answer.symsBlock = true
  tableBlock : shlib.shlElf ≠ none -> answer.tableBlock = true
  symName : forall data, shlib.shlElf = some data -> forall i, (tableOf syms).length ≤ i ->
    forall sym, gelfGetsym data i = some sym -> functionOf shlib.shlBase sym ≠ none ->
      answer.symName i = true
  shrink : shlib.shlElf ≠ none ->
    answer.shrink
      ((tableOf syms).length + (shlib.functionsFrom (tableOf syms).length).length) = true

/-- The memory for the table is granted exactly if its blocks are. -/
theorem growTable_iff {table : List Sym} :
    Exiting.growTable answer syms = .ok table ↔
      ((syms = none -> answer.symsBlock = true) ∧ answer.tableBlock = true) ∧
        tableOf syms = table := by
  rw [Exiting.growTable, tableOf]
  cases syms <;> cases answer.symsBlock <;> cases answer.tableBlock <;> simp

/-- The process goes on exactly if nothing is refused, and then with the table of `kelfOpen`. -/
theorem exiting_kelfOpen_iff {shlib : Shlib} {opened : Option (List Sym)} :
    Exiting.kelfOpen qsort answer shlib.shlElf syms shlib.shlBase = .ok opened ↔
      answer.Grants shlib syms ∧ kelfOpen qsort shlib.shlElf syms shlib.shlBase = opened := by
  rcases shlib with ⟨elf, base⟩
  unfold Exiting.kelfOpen
  by_cases version : answer.version = true
  · rw [if_pos version]
    cases elf with
    | none =>
        have noFile : forall {P : Prop}, (none : Option (List GElfSym)) ≠ none -> P :=
          fun absent => absurd rfl absent
        have grants : answer.Grants ⟨none, base⟩ syms :=
          ⟨version, noFile, noFile, fun data isData =>
            absurd isData (Option.some_ne_none data).symm, noFile⟩
        exact ⟨fun same => ⟨grants, Except.ok.inj same⟩, fun both => congrArg Except.ok both.2⟩
    | some data =>
        have loaded := loadLoop_whole data base (tableOf syms)
        have counted : (loadLoop data base data.length (tableOf syms).length
              (tableOf syms)).length = (tableOf syms).length +
                (Shlib.functionsFrom ⟨some data, base⟩ (tableOf syms).length).length := by
          rw [loaded, List.length_append]
          rfl
        constructor
        · intro opens
          cases grown : Exiting.growTable answer syms with
          | error why => rw [grown] at opens; cases opens
          | ok table =>
              rcases growTable_iff.mp grown with ⟨blocks, rfl⟩
              cases looped : Exiting.loadLoop answer data base data.length (tableOf syms).length
                  (tableOf syms) with
              | error why => simp only [grown, looped, bind, Except.bind] at opens; cases opens
              | ok all =>
                  rcases exiting_loadLoop_whole_iff.mp looped with ⟨named, rfl⟩
                  simp only [grown, looped, bind, Except.bind] at opens
                  split_ifs at opens with shrunk
                  rw [counted] at shrunk
                  refine ⟨⟨version, fun _ => blocks.1, fun _ => blocks.2, ?_, fun _ => shrunk⟩,
                    Except.ok.inj opens⟩
                  rintro other isData
                  cases isData
                  exact named
        · rintro ⟨grants, rfl⟩
          have present : some data ≠ none := Option.some_ne_none data
          have grown :=
            growTable_iff.mpr ⟨⟨grants.symsBlock present, grants.tableBlock present⟩, rfl⟩
          have looped : Exiting.loadLoop answer data base data.length (tableOf syms).length
              (tableOf syms) = .ok _ :=
            exiting_loadLoop_whole_iff.mpr ⟨grants.symName data rfl, rfl⟩
          have shrunk := grants.shrink present
          rw [← counted] at shrunk
          simp only [grown, looped, bind, Except.bind, if_pos shrunk]
          rfl
  · rw [if_neg version]
    constructor
    · intro impossible
      cases impossible
    · exact fun both => absurd both.1.version version

/-- Nothing is refused while the libraries are opened one after the other. -/
def AllGranted (qsort : Qsort) : Option (List Sym) -> List (Shlib × KelfAnswer) -> Prop
  | _, [] => True
  | syms, (shlib, answer) :: rest =>
      answer.Grants shlib syms ∧
        AllGranted qsort (kelfOpen qsort shlib.shlElf syms shlib.shlBase) rest

/-- `load_syms` comes back exactly if nothing is refused, and then with the table of `loadSyms`. -/
theorem exiting_loadSyms_iff {opened : List (Shlib × KelfAnswer)} {loaded : Option (List Sym)} :
    Exiting.loadSyms qsort none opened = .ok loaded ↔
      AllGranted qsort none opened ∧ loadSyms qsort (opened.map Prod.fst) = loaded := by
  have general : forall syms : Option (List Sym), Exiting.loadSyms qsort syms opened = .ok loaded ↔
      AllGranted qsort syms opened ∧ (opened.map Prod.fst).foldl
        (fun syms shlib => kelfOpen qsort shlib.shlElf syms shlib.shlBase) syms = loaded := by
    induction opened with
    | nil =>
      exact fun syms =>
        ⟨fun same => ⟨trivial, Except.ok.inj same⟩, fun both => congrArg Except.ok both.2⟩
    | cons first rest inductionHypothesis =>
        rcases first with ⟨shlib, answer⟩
        intro syms
        rw [Exiting.loadSyms, AllGranted, List.map_cons, List.foldl_cons, and_assoc]
        cases opens : Exiting.kelfOpen qsort answer shlib.shlElf syms shlib.shlBase with
        | error why =>
            constructor
            · intro impossible
              cases impossible
            · intro both
              rw [exiting_kelfOpen_iff.mpr ⟨both.1, rfl⟩] at opens
              cases opens
        | ok table =>
            rcases exiting_kelfOpen_iff.mp opens with ⟨grants, rfl⟩
            exact (inductionHypothesis _).trans (and_iff_right grants).symm
  exact general none

/-- Where `reallocarray` of no elements returns null, a first library without function symbols
is the last thing that the process opens. -/
theorem exiting_kelfOpen_noFunctions {shlib : Shlib} (isElf : shlib.shlElf ≠ none)
    (noFunctions : shlib.functions = []) (null : answer.shrink 0 = false)
    (opened : Option (List Sym)) :
    Exiting.kelfOpen qsort answer shlib.shlElf none shlib.shlBase ≠ .ok opened := by
  intro opens
  have shrunk := (exiting_kelfOpen_iff.mp opens).1.shrink isElf
  have noneKept : shlib.functionsFrom (tableOf none).length = [] := by
    rw [← noFunctions]
    rfl
  rw [noneKept, List.length_nil, show (tableOf none).length = 0 from rfl, null] at shrunk
  cases shrunk

end Opening

end Mprofile
end OsslScripts
