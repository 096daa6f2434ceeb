import OsslScripts.Mprofile.Ksyms
import Mathlib.Algebra.Ring.Int.Defs
import Mathlib.Algebra.Ring.Nat
import Mathlib.Data.List.Pairwise

namespace OsslScripts
namespace Mprofile

/-!
# Names and the ranges of libraries

Libraries are mapped at disjoint ranges, and a frame should be named after a
function of the library it lies in.  `kelf_open` lets a symbol without a size
extend to the next symbol in the table of all libraries, and does so again at
every later library.  A symbol of size zero that is the last one kept of its
library thus reaches over the end of the library, as soon as the table has a
symbol beyond it.
-/

/-- A library and the range it is mapped at. -/
structure Mapping where
  shlib : Shlib
  start : Nat
  stop : Nat
deriving DecidableEq, Repr

namespace Mapping

def Contains (m : Mapping) (pc : UInt64) : Prop := m.start ≤ pc.toNat ∧ pc.toNat < m.stop

instance (m : Mapping) (pc : UInt64) : Decidable (m.Contains pc) :=
  inferInstanceAs (Decidable (_ ∧ _))

/-- The symbol is one of the library's. -/
def Contributes (m : Mapping) (sym : Sym) : Prop := sym.place ∈ m.shlib.functions.map Sym.place

instance (m : Mapping) (sym : Sym) : Decidable (m.Contributes sym) :=
  inferInstanceAs (Decidable (_ ∈ _))

end Mapping

def shlibsOf (maps : List Mapping) : List Shlib := maps.map Mapping.shlib

/-- The table after these libraries. -/
def loadedTable (qsort : Qsort) (maps : List Mapping) : List Sym :=
  tableOf (loadSyms qsort (shlibsOf maps))

/-- Disjoint ranges in the address space, and all function symbols inside the
range of their library. -/
structure Placed (maps : List Mapping) : Prop where
  apart : maps.Pairwise (fun a b => a.stop ≤ b.start ∨ b.stop ≤ a.start)
  top : forall m, m ∈ maps -> m.stop ≤ 2 ^ 64
  inside : forall m, m ∈ maps -> forall sym, sym ∈ m.shlib.functions ->
    m.Contains sym.symValue ∧ sym.symValue.toNat + sym.symSize.toNat ≤ m.stop

/-- A program counter that is resolved lies in the library of the symbol, at
the printed offset from it. -/
def NamesOwnLibrary (qsort : Qsort) (bsearch : Bsearch) (maps : List Mapping) : Prop :=
  forall pc entry offset,
    kelfResolve bsearch (loadSyms qsort (shlibsOf maps)) pc = some (entry, offset) ->
      entry.symValue + offset = pc ∧ (Exists fun m => m ∈ maps ∧ m.Contributes entry) ∧
        forall m, m ∈ maps -> m.Contributes entry -> m.Contains pc

/-- Whenever a kept symbol lies above a kept symbol of size zero, one of them
lies between it and the end of its library, or just at the end. -/
def Bounded (maps : List Mapping) : Prop :=
  forall before, before <+: maps -> forall m, m ∈ before ->
    forall sym, sym ∈ keptSyms (shlibsOf before) -> sym ∈ m.shlib.functions -> sym.symSize = 0 ->
      forall above, above ∈ keptSyms (shlibsOf before) -> sym.symValue < above.symValue ->
        Exists fun next => next ∈ keptSyms (shlibsOf before) ∧ sym.symValue < next.symValue ∧
          next.symValue.toNat ≤ m.stop

/-! ## Guessing -/

section Guessing

variable {table : List Sym} {entry sym : Sym}

/-- The order of the addresses. -/
def Ascending (table : List Sym) : Prop := table.Pairwise (fun a b => a.symValue ≤ b.symValue)

/-- An entry after the guesses: it had a size or had nothing behind it, or it
now extends to the lowest address above its own. -/
theorem mem_guessSizes (ascending : Ascending table) (member : entry ∈ guessSizes table) :
    entry ∈ table ∨ Exists fun sym => sym ∈ table ∧ sym.symSize = 0 ∧
      Exists fun next => next ∈ table ∧
      entry = { sym with symSize := next.symValue - sym.symValue } ∧ sym.symValue ≤ next.symValue ∧
        forall above, above ∈ table -> sym.symValue < above.symValue ->
          next.symValue ≤ above.symValue := by
  induction table with
  | nil => cases member
  | cons first rest inductionHypothesis =>
      cases rest with
      | nil => exact Or.inl member
      | cons next rest =>
          have parts := List.pairwise_cons.mp ascending
          rcases List.mem_cons.mp member with here | later
          · split_ifs at here with sized
            · exact Or.inl (List.mem_cons.mpr (Or.inl here))
            · refine Or.inr ⟨first, List.mem_cons_self, not_not.mp sized, next,
                List.mem_cons_of_mem _ List.mem_cons_self, here,
                parts.1 next List.mem_cons_self, fun above isAbove less => ?_⟩
              rcases List.mem_cons.mp isAbove with rfl | behind
              · exact absurd less (UInt64.lt_irrefl _)
              · rcases List.mem_cons.mp behind with rfl | further
                · exact UInt64.le_refl _
                · exact (List.pairwise_cons.mp parts.2).1 above further
          · rcases inductionHypothesis parts.2 later with
              old | ⟨sym, isSym, unsized, beyond, isBeyond,
              same, order, lowest⟩
            · exact Or.inl (List.mem_cons_of_mem _ old)
            · refine Or.inr ⟨sym, List.mem_cons_of_mem _ isSym, unsized, beyond,
                List.mem_cons_of_mem _ isBeyond, same, order, fun above isAbove less => ?_⟩
              rcases List.mem_cons.mp isAbove with rfl | behind
              · exact absurd less (UInt64.not_lt.mpr (parts.1 sym isSym))
              · exact lowest above behind less

/-- A size is not changed. -/
theorem guessSizes_sized (member : sym ∈ table) (sized : sym.symSize ≠ 0) :
    sym ∈ guessSizes table := by
  induction table with
  | nil => cases member
  | cons first rest inductionHypothesis =>
      cases rest with
      | nil => exact member
      | cons next rest =>
          rcases List.mem_cons.mp member with rfl | later
          · rw [guessSizes, if_pos sized]
            exact List.mem_cons_self
          · exact List.mem_cons_of_mem _ (inductionHypothesis later)

/-- With nothing above it a symbol stays without a size. -/
theorem guessSizes_highest (ascending : Ascending table) (member : sym ∈ table)
    (unsized : sym.symSize = 0)
    (highest : forall above, above ∈ table -> ¬ sym.symValue < above.symValue) :
    sym ∈ guessSizes table := by
  induction table with
  | nil => cases member
  | cons first rest inductionHypothesis =>
      cases rest with
      | nil => exact member
      | cons next rest =>
          have parts := List.pairwise_cons.mp ascending
          rcases List.mem_cons.mp member with rfl | later
          · have same : next.symValue = sym.symValue :=
              UInt64.le_antisymm (UInt64.not_lt.mp
                (highest next (List.mem_cons_of_mem _ List.mem_cons_self)))
                (parts.1 next List.mem_cons_self)
            have zero : next.symValue - sym.symValue = sym.symSize := by
              rw [same, UInt64.sub_self, unsized]
            rw [guessSizes, if_neg (not_not.mpr unsized), zero]
            exact List.mem_cons_self
          · exact List.mem_cons_of_mem _ (inductionHypothesis parts.2 later
              (fun above isAbove => highest above (List.mem_cons_of_mem _ isAbove)))

end Guessing

/-! ## The tables -/

section Tables

variable {qsort : Qsort} {maps : List Mapping} {m : Mapping}

theorem shlibsOf_append (maps : List Mapping) (m : Mapping) :
    shlibsOf (maps ++ [m]) = shlibsOf maps ++ [m.shlib] := by
  rw [shlibsOf, shlibsOf, List.map_append, List.map_singleton]

theorem ascending_sort (qsort : Qsort) (table : List Sym) : Ascending (qsort.sort table) :=
  (qsort.sorted table).imp (fun {a b} le => (symCompareSort_le a b).mp le)

/-- One more library: nothing changes, or its symbols are sorted in and sizes are guessed. -/
theorem loadedTable_append (qsort : Qsort) (maps : List Mapping) (m : Mapping) :
    (keptSyms (shlibsOf (maps ++ [m])) = keptSyms (shlibsOf maps) ∧
        loadedTable qsort (maps ++ [m]) = loadedTable qsort maps) ∨
      Exists fun added => keptSyms (shlibsOf (maps ++ [m])) = keptSyms (shlibsOf maps) ++ added ∧
        (forall sym, sym ∈ added -> sym ∈ m.shlib.functions) ∧
        loadedTable qsort (maps ++ [m]) =
          guessSizes (qsort.sort (loadedTable qsort maps ++ added)) := by
  have lengths : (loadedTable qsort maps).length = (keptSyms (shlibsOf maps)).length := by
    have equal := (loadSyms_kept qsort (shlibsOf maps)).1.length_eq
    rwa [List.length_map, List.length_map] at equal
  unfold loadedTable at *
  rw [shlibsOf_append, keptSyms_append, loadSyms_append]
  cases file : m.shlib.shlElf with
  | none =>
      refine Or.inl ⟨?_, rfl⟩
      rw [Shlib.functionsFrom, file]
      simp
  | some data =>
      refine Or.inr ⟨m.shlib.functionsFrom (keptSyms (shlibsOf maps)).length, rfl,
        fun sym member => ?_, ?_⟩
      · rw [functions_split m.shlib (keptSyms (shlibsOf maps)).length]
        exact List.mem_append_right _ member
      · rw [← lengths, Shlib.functionsFrom, file]
        simp only [kelfOpen, tableOf, Option.getD_some, loadLoop_whole]

/-- Kept symbols are in the table with their addresses, and it has no others. -/
theorem value_mem_loadedTable (qsort : Qsort) (maps : List Mapping) (value : UInt64) :
    value ∈ (loadedTable qsort maps).map Sym.symValue ↔
      value ∈ (keptSyms (shlibsOf maps)).map Sym.symValue := by
  have values := ((loadSyms_kept qsort (shlibsOf maps)).1.map Prod.snd).mem_iff (a := value)
  rwa [List.map_map, List.map_map] at values

end Tables

/-! ## The condition is enough -/

section Sufficient

variable {qsort : Qsort} {maps : List Mapping} {m : Mapping}

/-- An entry that stands for a kept symbol of a library and ends inside of it. -/
def Traced (maps : List Mapping) (entry : Sym) : Prop :=
  Exists fun m => m ∈ maps ∧ Exists fun sym => sym ∈ keptSyms (shlibsOf maps) ∧
    sym ∈ m.shlib.functions ∧ entry.place = sym.place ∧
    (entry.symSize = sym.symSize ∨ sym.symSize = 0) ∧
    entry.symValue.toNat + entry.symSize.toNat ≤ m.stop

theorem Traced.grow {entry : Sym} (traced : Traced maps entry) (m : Mapping)
    (kept : keptSyms (shlibsOf maps) ⊆ keptSyms (shlibsOf (maps ++ [m]))) :
    Traced (maps ++ [m]) entry := by
  rcases traced with ⟨own, isMap, sym, isKept, rest⟩
  exact ⟨own, List.mem_append_left _ isMap, sym, kept isKept, rest⟩

/-- The end of a symbol that was made to extend to the next one. -/
theorem toNat_guessed {value next : UInt64} (order : value ≤ next) :
    value.toNat + (next - value).toNat = next.toNat := by
  have least := UInt64.le_iff_toNat_le.mp order
  rw [UInt64.toNat_sub_of_le _ _ order]
  omega

/-- Every entry stays traced, one library after the other. -/
theorem traced_loadedTable (qsort : Qsort) (placed : Placed maps) (bounded : Bounded maps) :
    forall before, before <+: maps -> forall entry, entry ∈ loadedTable qsort before ->
      Traced before entry := by
  intro before
  induction before using List.reverseRecOn with
  | nil =>
      intro _ entry member
      cases member
  | append_singleton before m inductionHypothesis =>
      intro isPrefix entry member
      have earlier : before <+: maps := (List.prefix_append before [m]).trans isPrefix
      have isMap : m ∈ maps := isPrefix.subset (List.mem_append_right _ List.mem_cons_self)
      rcases loadedTable_append qsort before m with ⟨kept, same⟩ | ⟨added, kept, own, loaded⟩
      · rw [same] at member
        exact (inductionHypothesis earlier entry member).grow m
          (by rw [kept]; exact List.Subset.refl _)
      · have origin : forall sym, sym ∈ qsort.sort (loadedTable qsort before ++ added) ->
            Traced (before ++ [m]) sym := by
          intro sym isSym
          rcases List.mem_append.mp ((qsort.perm _).mem_iff.mp isSym) with old | isNew
          · exact (inductionHypothesis earlier sym old).grow m
              (by rw [kept]; exact List.subset_append_left _ _)
          · refine ⟨m, List.mem_append_right _ List.mem_cons_self, sym, ?_, own sym isNew, rfl,
              Or.inl rfl,
              (placed.inside m isMap sym (own sym isNew)).2⟩
            rw [kept]
            exact List.mem_append_right _ isNew
        -- the addresses in the sorted table are those of the kept symbols
        have values : forall value,
            (Exists fun sym => sym ∈ qsort.sort (loadedTable qsort before ++ added) ∧
              sym.symValue = value) ↔
            Exists fun sym => sym ∈ keptSyms (shlibsOf (before ++ [m])) ∧ sym.symValue = value := by
          intro value
          have table := value_mem_loadedTable qsort before value
          rw [List.mem_map, List.mem_map] at table
          simp only [(qsort.perm _).mem_iff, kept, List.mem_append, or_and_right, exists_or, table]
        rw [loaded] at member
        rcases mem_guessSizes (ascending_sort qsort _) member with old | ⟨sym, isSym, unsized, next,
          isNext, rfl, order, lowest⟩
        · exact origin entry old
        · rcases origin sym isSym with ⟨lib, isLib, source, isKept, isOwn, place, sizes, -⟩
          have value : sym.symValue = source.symValue := congrArg Prod.snd place
          have zero : source.symSize = 0 := by
            rcases sizes with equal | already
            · rw [← equal]
              exact unsized
            · exact already
          refine ⟨lib, isLib, source, isKept, isOwn, place, Or.inr zero, ?_⟩
          rw [toNat_guessed order]
          rcases UInt64.lt_or_eq_of_le order with less | equal
          · rcases (values next.symValue).mp ⟨next, isNext, rfl⟩ with ⟨above, isAbove, aboveValue⟩
            rcases bounded _ isPrefix lib isLib source isKept isOwn zero above isAbove
              (by rw [← value, aboveValue]; exact less) with ⟨near, isNear, nearLess, nearEnd⟩
            rcases (values near.symValue).mpr ⟨near, isNear, rfl⟩ with ⟨other, isOther, otherValue⟩
            have atMost := lowest other isOther (by rw [otherValue, value]; exact nearLess)
            rw [otherValue, UInt64.le_iff_toNat_le] at atMost
            exact Nat.le_trans atMost nearEnd
          · have libIsMap : lib ∈ maps := isPrefix.subset isLib
            have inside := (placed.inside lib libIsMap source isOwn).1.2
            rw [← equal, value]
            exact Nat.le_of_lt inside

/-- What matches the key is in the range of the entry. -/
theorem symCompareSearch_zero {key : UInt64} {entry : Sym} {stop : Nat} (top : stop ≤ 2 ^ 64)
    (inside : entry.symValue.toNat + entry.symSize.toNat ≤ stop)
    (matched : symCompareSearch key entry = 0) :
    entry.symValue ≤ key ∧ key.toNat < stop := by
  unfold symCompareSearch at matched
  split_ifs at matched with below above
  · cases matched
  · refine ⟨UInt64.not_lt.mp below, ?_⟩
    rw [UInt64.not_le, UInt64.lt_iff_toNat_lt, UInt64.toNat_add] at above
    have modulo := Nat.mod_le (entry.symValue.toNat + entry.symSize.toNat) (2 ^ 64)
    omega

/-- Libraries at disjoint ranges do not share an address. -/
theorem Placed.unique (placed : Placed maps) {m m' : Mapping} (isMap : m ∈ maps)
    (isMap' : m' ∈ maps)
    {value : UInt64} (here : m.Contains value) (there : m'.Contains value) : m = m' := by
  by_contra different
  have symmetric : Std.Symm (fun a b : Mapping => a.stop ≤ b.start ∨ b.stop ≤ a.start) :=
    ⟨fun a b apart => apart.symm⟩
  have apart := placed.apart.forall isMap isMap' different
  have first := here
  have second := there
  unfold Mapping.Contains at first second
  omega

theorem Placed.contains (placed : Placed maps) (isMap : m ∈ maps) {entry : Sym}
    (contributes : m.Contributes entry) : m.Contains entry.symValue := by
  rcases List.mem_map.mp contributes with ⟨sym, isOwn, place⟩
  have value : sym.symValue = entry.symValue := congrArg Prod.snd place
  rw [← value]
  exact (placed.inside m isMap sym isOwn).1

theorem namesOwnLibrary_of_bounded (qsort : Qsort) (bsearch : Bsearch) (placed : Placed maps)
    (bounded : Bounded maps) : NamesOwnLibrary qsort bsearch maps := by
  intro pc entry offset resolved
  have found : Exists fun table => loadSyms qsort (shlibsOf maps) = some table ∧
      bsearch.search pc table = some entry ∧ offset = pc - entry.symValue := by
    cases loaded : loadSyms qsort (shlibsOf maps) with
    | none => rw [loaded] at resolved; cases resolved
    | some table =>
        rw [loaded] at resolved
        rcases Option.map_eq_some_iff.mp resolved with ⟨sym, searched, same⟩
        cases same
        exact ⟨table, rfl, searched, rfl⟩
  rcases found with ⟨table, loaded, searched, rfl⟩
  have matched := bsearch.found pc table entry searched
  have isTable : loadedTable qsort maps = table := by
    rw [loadedTable, loaded]
    rfl
  rcases traced_loadedTable qsort placed bounded maps (List.prefix_refl _) entry
    (by rw [isTable]; exact matched.1) with ⟨m, isMap, sym, -, isOwn, place, -, inside⟩
  have contributes : m.Contributes entry := by
    rw [Mapping.Contributes, place]
    exact List.mem_map_of_mem isOwn
  have range := symCompareSearch_zero (placed.top m isMap) inside matched.2
  have contained : m.Contains pc := by
    have start := (placed.contains isMap contributes).1
    exact ⟨Nat.le_trans start (UInt64.le_iff_toNat_le.mp range.1), range.2⟩
  refine ⟨?_, ⟨m, isMap, contributes⟩, fun m' isMap' contributes' => ?_⟩
  · rw [UInt64.add_comm]
    exact UInt64.sub_add_cancel _ _
  · have same := placed.unique isMap isMap' (placed.contains isMap contributes)
      (placed.contains isMap' contributes')
    rw [← same]
    exact contained

end Sufficient

/-! ## The condition is needed -/

section Needed

variable {maps : List Mapping} {m : Mapping} {sym : Sym}

/-- Ascending addresses, and this symbol behind the others at its address. -/
def lastAmongEqual (sym a b : Sym) : Prop :=
  a.symValue < b.symValue ∨ (a.symValue = b.symValue ∧ (a = sym -> b = sym))

instance (sym : Sym) : DecidableRel (lastAmongEqual sym) :=
  fun _ _ => inferInstanceAs (Decidable (_ ∨ _))

instance (sym : Sym) : Std.Total (lastAmongEqual sym) where
  total := by
    intro a b
    rcases Nat.lt_trichotomy a.symValue.toNat b.symValue.toNat with less | same | greater
    · exact Or.inl (Or.inl (UInt64.lt_iff_toNat_lt.mpr less))
    · have equal := UInt64.toNat_inj.mp same
      by_cases isLast : b = sym
      · exact Or.inl (Or.inr ⟨equal, fun _ => isLast⟩)
      · exact Or.inr (Or.inr ⟨equal.symm, fun isSym => absurd isSym isLast⟩)
    · exact Or.inr (Or.inl (UInt64.lt_iff_toNat_lt.mpr greater))

instance (sym : Sym) : IsTrans Sym (lastAmongEqual sym) where
  trans := by
    rintro a b c (less | ⟨same, last⟩) (less' | ⟨same', last'⟩)
    · exact Or.inl (UInt64.lt_trans less less')
    · exact Or.inl (same' ▸ less)
    · exact Or.inl (same ▸ less')
    · exact Or.inr ⟨same.trans same', fun isSym => last' (last isSym)⟩

/-- A `qsort` that puts one symbol behind the others at its address. -/
def qsortLast (sym : Sym) : Qsort where
  sort := fun table => table.insertionSort (lastAmongEqual sym)
  perm := fun table => List.perm_insertionSort _ table
  sorted := by
    intro table
    refine (List.pairwise_insertionSort (lastAmongEqual sym) table).imp (fun {a b} order => ?_)
    rw [symCompareSort_le]
    rcases order with less | ⟨same, -⟩
    · exact UInt64.le_of_lt less
    · rw [same]
      exact UInt64.le_refl _

/-- The last symbol at its address is made to extend to a higher one, if there is one. -/
theorem guessSizes_last {table : List Sym} (sorted : table.Pairwise (lastAmongEqual sym))
    (member : sym ∈ table) (unsized : sym.symSize = 0) {above : Sym} (isAbove : above ∈ table)
    (less : sym.symValue < above.symValue) :
    Exists fun next => next ∈ table ∧ sym.symValue < next.symValue ∧
      { sym with symSize := next.symValue - sym.symValue } ∈ guessSizes table := by
  induction table with
  | nil => cases member
  | cons first rest inductionHypothesis =>
      cases rest with
      | nil =>
          rw [List.mem_singleton] at member isAbove
          rw [member, isAbove] at less
          exact absurd less (UInt64.lt_irrefl _)
      | cons next rest =>
          have parts := List.pairwise_cons.mp sorted
          by_cases later : sym ∈ next :: rest
          · have aboveLater : above ∈ next :: rest := by
              rcases List.mem_cons.mp isAbove with rfl | behind
              · rcases parts.1 sym later with less' | ⟨same, -⟩
                · exact absurd less (UInt64.lt_asymm less')
                · exact absurd (same ▸ less) (UInt64.lt_irrefl _)
              · exact behind
            rcases inductionHypothesis parts.2 later aboveLater with
              ⟨beyond, isBeyond, higher, guessed⟩
            exact ⟨beyond, List.mem_cons_of_mem _ isBeyond, higher, List.mem_cons_of_mem _ guessed⟩
          · have here : sym = first := (List.mem_cons.mp member).resolve_right later
            subst here
            have higher : sym.symValue < next.symValue := by
              rcases parts.1 next List.mem_cons_self with less' | ⟨-, isSym⟩
              · exact less'
              · exact absurd (isSym rfl ▸ List.mem_cons_self) later
            refine ⟨next, List.mem_cons_of_mem _ List.mem_cons_self, higher, ?_⟩
            rw [guessSizes, if_neg (not_not.mpr unsized)]
            exact List.mem_cons_self

/-- An entry for the symbol that reaches over the end of its library. -/
def Overlong (stop : Nat) (sym : Sym) (table : List Sym) : Prop :=
  Exists fun next : UInt64 => sym.symValue < next ∧ stop < next.toNat ∧
    { sym with symSize := next - sym.symValue } ∈ table

/-- Once an entry reaches too far, it does so for good. -/
theorem Overlong.stays {qsort : Qsort} {stop : Nat} {before : List Mapping}
    (overlong : Overlong stop sym (loadedTable qsort before)) (after : List Mapping) :
    Overlong stop sym (loadedTable qsort (before ++ after)) := by
  induction after using List.reverseRecOn with
  | nil => rwa [List.append_nil]
  | append_singleton after m inductionHypothesis =>
      rcases inductionHypothesis with ⟨next, higher, beyond, member⟩
      rw [← List.append_assoc]
      refine ⟨next, higher, beyond, ?_⟩
      rcases loadedTable_append qsort (before ++ after) m with ⟨-, same⟩ | ⟨added, -, -, loaded⟩
      · rwa [same]
      · rw [loaded]
        apply guessSizes_sized
        · exact (qsort.perm _).mem_iff.mpr (List.mem_append_left _ member)
        · intro zero
          have order := toNat_guessed (UInt64.le_of_lt higher)
          have least := UInt64.lt_iff_toNat_lt.mp higher
          simp only at zero
          rw [zero, UInt64.toNat_zero] at order
          omega

/-- A symbol without a size stays as it is until the table has a symbol above
it, and is then made to reach that far. -/
theorem overlong_loadedTable {stop : Nat} (unsized : sym.symSize = 0) :
    forall before, sym ∈ keptSyms (shlibsOf before) ->
      (forall above, above ∈ keptSyms (shlibsOf before) -> sym.symValue < above.symValue ->
        stop < above.symValue.toNat) ->
      (sym ∈ loadedTable (qsortLast sym) before ∧
        forall above, above ∈ keptSyms (shlibsOf before) -> ¬ sym.symValue < above.symValue) ∨
      Overlong stop sym (loadedTable (qsortLast sym) before) := by
  intro before
  induction before using List.reverseRecOn with
  | nil =>
      intro member
      cases member
  | append_singleton before m inductionHypothesis =>
      intro member far
      rcases loadedTable_append (qsortLast sym) before m with
        ⟨kept, same⟩ | ⟨added, kept, -, loaded⟩
      · rw [kept] at member far ⊢
        rw [same]
        exact inductionHypothesis member far
      · rw [kept] at member far
        have old : sym ∈ keptSyms (shlibsOf before) -> _ := fun isOld =>
          inductionHypothesis isOld
            (fun above isAbove => far above (List.mem_append_left _ isAbove))
        have entered : sym ∈ loadedTable (qsortLast sym) before ++ added ∨
            Overlong stop sym (loadedTable (qsortLast sym) before) := by
          rcases List.mem_append.mp member with isOld | isNew
          · rcases old isOld with ⟨present, -⟩ | overlong
            · exact Or.inl (List.mem_append_left _ present)
            · exact Or.inr overlong
          · exact Or.inl (List.mem_append_right _ isNew)
        rcases entered with present | overlong
        · have isSym := ((qsortLast sym).perm _).mem_iff.mpr present
          have values : forall value,
              (Exists fun entry =>
                entry ∈ (qsortLast sym).sort (loadedTable (qsortLast sym) before ++ added) ∧
                entry.symValue = value) ↔
              Exists fun entry => entry ∈ keptSyms (shlibsOf before) ++ added ∧
                  entry.symValue = value := by
            intro value
            have table := value_mem_loadedTable (qsortLast sym) before value
            rw [List.mem_map, List.mem_map] at table
            simp only [((qsortLast sym).perm _).mem_iff, List.mem_append, or_and_right,
              exists_or, table]
          by_cases alone : forall above, above ∈ keptSyms (shlibsOf before) ++ added ->
              ¬ sym.symValue < above.symValue
          · refine Or.inl ⟨?_, by rw [kept]; exact alone⟩
            rw [loaded]
            refine guessSizes_highest (ascending_sort _ _) isSym unsized
              (fun above isAbove less => ?_)
            rcases (values above.symValue).mp ⟨above, isAbove, rfl⟩ with ⟨entry, isEntry, value⟩
            exact alone entry isEntry (value ▸ less)
          · simp only [not_forall, not_not] at alone
            rcases alone with ⟨above, isAbove, less⟩
            rcases (values above.symValue).mpr ⟨above, isAbove, rfl⟩ with ⟨entry, isEntry, value⟩
            rcases guessSizes_last (List.pairwise_insertionSort (lastAmongEqual sym) _)
              isSym unsized
              isEntry (value ▸ less) with ⟨next, isNext, higher, guessed⟩
            rcases (values next.symValue).mp ⟨next, isNext, rfl⟩ with
              ⟨source, isSource, sourceValue⟩
            refine Or.inr ⟨next.symValue, higher, ?_, ?_⟩
            · rw [← sourceValue]
              exact far source isSource (by rw [sourceValue]; exact higher)
            · rw [loaded]
              exact guessed
        · exact Or.inr (overlong.stays [m])

/-- A `bsearch` that prefers one entry. -/
def bsearchFirst (entry : Sym) : Bsearch where
  search := fun key table =>
    if entry ∈ table ∧ symCompareSearch key entry = 0 then some entry
    else table.find? (fun other => decide (symCompareSearch key other = 0))
  found := by
    intro key table other searched
    by_cases preferred : entry ∈ table ∧ symCompareSearch key entry = 0
    · rw [if_pos preferred] at searched
      cases searched
      exact preferred
    · rw [if_neg preferred] at searched
      exact ⟨List.mem_of_find?_eq_some searched, by simpa using List.find?_some searched⟩

/-- The end of the library is resolved to the overlong entry. -/
theorem symCompareSearch_overlong {stop : Nat} {next : UInt64} (inside : sym.symValue.toNat < stop)
    (beyond : stop < next.toNat) :
    symCompareSearch (UInt64.ofNat stop) { sym with symSize := next - sym.symValue } = 0 := by
  have top := next.toNat_lt
  have key : (UInt64.ofNat stop).toNat = stop := UInt64.toNat_ofNat_of_lt' (Nat.lt_trans beyond top)
  have ending : sym.symValue + (next - sym.symValue) = next := by
    rw [UInt64.add_comm]
    exact UInt64.sub_add_cancel _ _
  unfold symCompareSearch
  simp only [ending]
  rw [if_neg, if_neg]
  · rw [UInt64.le_iff_toNat_le, key]
    omega
  · rw [UInt64.lt_iff_toNat_lt, key]
    omega

end Needed

/-- With every `qsort` and every `bsearch` of the C standard, no frame is named
after a function of another library exactly under the condition. -/
theorem namesOwnLibrary_iff {maps : List Mapping} (placed : Placed maps) :
    (forall qsort bsearch, NamesOwnLibrary qsort bsearch maps) ↔ Bounded maps := by
  constructor
  · intro names before isPrefix m isMap sym isKept isOwn unsized above isAbove less
    by_contra none
    have far : forall other, other ∈ keptSyms (shlibsOf before) -> sym.symValue < other.symValue ->
        m.stop < other.symValue.toNat := by
      intro other isOther higher
      by_contra near
      exact none ⟨other, isOther, higher, Nat.le_of_not_lt near⟩
    have mapped : m ∈ maps := isPrefix.subset isMap
    have inside := (placed.inside m mapped sym isOwn).1
    rcases overlong_loadedTable unsized before isKept far with ⟨-, alone⟩ | overlong
    · exact alone above isAbove less
    · rcases isPrefix with ⟨after, rfl⟩
      rcases overlong.stays after with ⟨next, -, beyond, member⟩
      have matched := symCompareSearch_overlong inside.2 beyond
      generalize isEntry : ({ sym with symSize := next - sym.symValue } : Sym) =
        entry at member matched
      have resolved : kelfResolve (bsearchFirst entry)
          (loadSyms (qsortLast sym) (shlibsOf (before ++ after))) (UInt64.ofNat m.stop) =
            some (entry, UInt64.ofNat m.stop - entry.symValue) := by
        unfold loadedTable tableOf at member
        cases loaded : loadSyms (qsortLast sym) (shlibsOf (before ++ after)) with
        | none => rw [loaded] at member; cases member
        | some table =>
            rw [loaded] at member
            unfold kelfResolve bsearchFirst
            simp only
            rw [if_pos ⟨member, matched⟩]
            rfl
      have named := names (qsortLast sym) (bsearchFirst entry) _ _ _ resolved
      have contributes : m.Contributes entry := by
        rw [Mapping.Contributes, ← isEntry]
        change sym.place ∈ _
        exact List.mem_map_of_mem isOwn
      have contained := (named.2.2 m mapped contributes).2
      have key : (UInt64.ofNat m.stop).toNat = m.stop :=
        UInt64.toNat_ofNat_of_lt' (Nat.lt_trans beyond next.toNat_lt)
      rw [key] at contained
      exact Nat.lt_irrefl _ contained
  · intro bounded qsort bsearch
    exact namesOwnLibrary_of_bounded qsort bsearch placed bounded

/-! ## Three libraries -/

/-- Two libraries whose functions have sizes, and a stripped one between them. -/
def sizedMaps : List Mapping :=
  [⟨⟨some [undefinedSym, functionSym 'f' 0x800 0x40], 0x1000⟩, 0x1000, 0x2000⟩,
    ⟨⟨none, 0x3000⟩, 0x3000, 0x4000⟩,
    ⟨⟨some [undefinedSym, functionSym 'g' 0x10 0x20], 0x5000⟩, 0x5000, 0x6000⟩]

theorem namesOwnLibrary_iff_sizedMaps :
    Placed sizedMaps ∧ forall qsort bsearch, NamesOwnLibrary qsort bsearch sizedMaps := by
  have placed : Placed sizedMaps := by
    refine ⟨?_, ?_, ?_⟩
    · decide
    · decide
    · decide
  have sized : forall m, m ∈ sizedMaps -> forall sym, sym ∈ m.shlib.functions ->
    sym.symSize ≠ 0 := by decide
  have bounded : Bounded sizedMaps := by
    intro before isPrefix m isMap sym isKept isOwn unsized
    exact absurd unsized (sized m (isPrefix.subset isMap) sym isOwn)
  exact ⟨placed, (namesOwnLibrary_iff placed).mpr bounded⟩

/-- A search from the start of the table. -/
def linearBsearch : Bsearch where
  search := fun key table => table.find? (fun entry => decide (symCompareSearch key entry = 0))
  found := fun key table entry searched =>
    ⟨List.mem_of_find?_eq_some searched, by simpa using List.find?_some searched⟩

/-- The same libraries, with no size for the function of the first one. -/
def gapMaps : List Mapping :=
  [⟨⟨some [undefinedSym, functionSym 'f' 0x800 0], 0x1000⟩, 0x1000, 0x2000⟩,
    ⟨⟨none, 0x3000⟩, 0x3000, 0x4000⟩,
    ⟨⟨some [undefinedSym, functionSym 'g' 0x10 0x20], 0x5000⟩, 0x5000, 0x6000⟩]

theorem placed_gapMaps : Placed gapMaps := by
  refine ⟨?_, ?_, ?_⟩
  · decide
  · decide
  · decide

/-- A frame in the stripped library is named after the function below it. -/
theorem gapMaps_misnamed :
    Placed gapMaps ∧ ¬ NamesOwnLibrary insertionQsort linearBsearch gapMaps := by
  refine ⟨placed_gapMaps, fun names => ?_⟩
  have resolved : kelfResolve linearBsearch (loadSyms insertionQsort (shlibsOf gapMaps)) 0x3000 =
      some (⟨['f'], 0x1800, 0x3810⟩, 0x1800) := by decide
  have named := (names _ _ _ resolved).2.2 _ List.mem_cons_self (by decide)
  exact absurd named (by decide)

end Mprofile
end OsslScripts
