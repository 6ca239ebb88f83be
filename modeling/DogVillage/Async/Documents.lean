import Mathlib.Data.List.AList
import Mathlib.Data.List.Sort
import Mathlib.Data.Finset.Card

/-!
# A document store

Documents are untyped dictionaries; a document is addressed by its
collection and its id. A write touches one document: `setData` replaces
it, `updateData` changes the named fields of an existing one, `delete`
removes it (and no document of a collection below it: the collections
`C` are all the store knows).

A query selects the documents of one collection, by the value of one
field if it names one; without an order it returns them by id.
-/

namespace Async

/-- A dictionary. Of two entries for one key the first counts. -/
abbrev Fields (V : Type) := List (String × V)

structure Ref (C : Type) where
  collection : C
  id : String
deriving DecidableEq, Repr

/-- The documents of a store, each under one reference only. -/
abbrev Documents (C V : Type) := AList fun _ : Ref C => Fields V

inductive DocWrite (C V : Type)
  | setData (r : Ref C) (data : Fields V)
  | updateData (r : Ref C) (data : Fields V)
  | delete (r : Ref C)
deriving DecidableEq, Repr

namespace DocWrite

variable {C V : Type}

def ref : DocWrite C V → Ref C
  | setData r _ => r
  | updateData r _ => r
  | delete r => r

/-- The fields a write names. -/
def data : DocWrite C V → Fields V
  | setData _ data => data
  | updateData _ data => data
  | delete _ => []

/-- What was last written under `key`, by writes in their order. -/
def lastWritten (key : String) : List (DocWrite C V) → Option V
  | [] => none
  | w :: ws => (lastWritten key ws).or (w.data.lookup key)

/-- The document a write puts in place (`true`) or takes away (`false`);
an update does neither. -/
def puts : DocWrite C V → Option (Ref C × Bool)
  | setData r _ => some (r, true)
  | updateData _ _ => none
  | delete r => some (r, false)

end DocWrite

/-! ## Queries -/

structure Query (C V : Type) where
  collection : C
  whereField : Option (String × V) := none
  /-- Newest first by this field; documents without it are left out. -/
  orderBy : Option String := none
deriving DecidableEq, Repr

namespace Query

variable {C V : Type}

def selects [DecidableEq V] (q : Query C V) (data : Fields V) : Bool :=
  (match q.whereField with
    | none => true
    | some (k, v) => data.lookup k = some v) &&
  (match q.orderBy with
    | none => true
    | some k => (data.lookup k).isSome)

/-- `a` may stand before `b` in the answer. Documents with the same value
are in the order of their ids, taken in the same direction. -/
def before [LE V] (q : Query C V) (a b : String × Fields V) : Prop :=
  match q.orderBy with
  | none => a.1 ≤ b.1
  | some k =>
      match a.2.lookup k, b.2.lookup k with
      | some x, some y => y ≤ x ∧ (x ≤ y → b.1 ≤ a.1)
      | _, _ => True

instance [LE V] [DecidableLE V] (q : Query C V) : DecidableRel q.before := fun a b => by
  unfold Query.before
  split
  · infer_instance
  · split <;> infer_instance

end Query

/-! ## Sorting -/

/-- Of two elements one stands first. -/
theorem or_of_pairwise {α : Type} {R : α → α → Prop} {l : List α} {a b : α} (h : l.Pairwise R)
    (ha : a ∈ l) (hb : b ∈ l) (hne : a ≠ b) : R a b ∨ R b a := by
  have : Std.Symm fun x y => R x y ∨ R y x := ⟨fun _ _ => Or.symm⟩
  exact (h.imp (S := fun x y => R x y ∨ R y x) Or.inl).forall ha hb hne

section

variable {α : Type} {r T : α → α → Prop} [DecidableRel r] [Std.Total r] [IsTrans α r]

theorem pairwise_orderedInsert {a : α} : ∀ {l : List α}, (∀ b ∈ l, T a b) →
    l.Pairwise (fun a b => r a b ∧ (r b a → T a b)) →
    (l.orderedInsert r a).Pairwise fun a b => r a b ∧ (r b a → T a b)
  | [], _, _ => List.pairwise_singleton _ _
  | b :: l, hT, h => by
      rw [List.orderedInsert_cons]
      obtain ⟨hb, hl⟩ := List.pairwise_cons.mp h
      split
      · next hab =>
          refine List.pairwise_cons.mpr ⟨fun c hc => ?_, h⟩
          refine ⟨?_, fun _ => hT c hc⟩
          rcases List.mem_cons.mp hc with rfl | hc
          · exact hab
          · exact IsTrans.trans _ _ _ hab (hb c hc).1
      · next hab =>
          refine List.pairwise_cons.mpr ⟨fun c hc => ?_,
            pairwise_orderedInsert (fun c hc => hT c (List.mem_cons_of_mem _ hc)) hl⟩
          rcases (List.mem_orderedInsert r).mp hc with rfl | hc
          · exact ⟨(Std.Total.total (r := r) c b).resolve_left hab, fun h => absurd h hab⟩
          · exact hb c hc

/-- Sorting is stable: of two elements the order does not tell apart, the
one that stood first stands first. -/
theorem pairwise_insertionSort_of_pairwise : ∀ {l : List α}, l.Pairwise T →
    (l.insertionSort r).Pairwise fun a b => r a b ∧ (r b a → T a b)
  | [], _ => .nil
  | a :: l, h => by
      obtain ⟨ha, hl⟩ := List.pairwise_cons.mp h
      exact pairwise_orderedInsert (fun b hb => ha b ((List.mem_insertionSort r).mp hb))
        (pairwise_insertionSort_of_pairwise hl)

end
/-! ## Documents -/

namespace Documents

variable {C V : Type}

def empty : Documents C V := (∅ : AList fun _ : Ref C => Fields V)

variable [DecidableEq C]

def get (s : Documents C V) (r : Ref C) : Option (Fields V) := AList.lookup r s

def set (s : Documents C V) (r : Ref C) (data : Fields V) : Documents C V :=
  AList.insert r data s

def erase (s : Documents C V) (r : Ref C) : Documents C V := AList.erase r s

@[simp] theorem get_empty (r : Ref C) : (empty : Documents C V).get r = none := rfl

theorem get_set (s : Documents C V) (r r' : Ref C) (data : Fields V) :
    (s.set r data).get r' = if r' = r then some data else s.get r' := by
  split
  · next h => subst h; exact AList.lookup_insert s
  · next h => exact AList.lookup_insert_ne h

theorem get_erase (s : Documents C V) (r r' : Ref C) :
    (s.erase r).get r' = if r' = r then none else s.get r' := by
  split
  · next h => subst h; exact AList.lookup_erase _ s
  · next h => exact AList.lookup_erase_ne h

/-- One write. Only `updateData` can fail: when the document is missing. -/
def apply (w : DocWrite C V) (s : Documents C V) : Option (Documents C V) :=
  match w with
  | .setData r data => some (s.set r data)
  | .updateData r data => (s.get r).map fun old => s.set r (data ++ old)
  | .delete r => some (s.erase r)

/-- What a write makes of the document it addresses. -/
def written (w : DocWrite C V) (old : Option (Fields V)) : Option (Fields V) :=
  match w with
  | .setData _ data => some data
  | .updateData _ data => old.map (data ++ ·)
  | .delete _ => none

theorem get_apply {w : DocWrite C V} {s s' : Documents C V} (h : apply w s = some s')
    (r : Ref C) :
    s'.get r = if r = w.ref then written w (s.get r) else s.get r := by
  cases w with
  | setData r₀ data => cases h; exact get_set s r₀ r data
  | updateData r₀ data =>
      obtain ⟨old, ho, rfl⟩ := Option.map_eq_some_iff.mp h
      rw [get_set]
      by_cases hr : r = r₀
      · subst hr; simp [DocWrite.ref, written, ho]
      · simp [DocWrite.ref, hr]
  | delete r₀ => cases h; exact get_erase s r₀ r

/-- Writes carried out one after the other. -/
def carryOut (ws : List (DocWrite C V)) (s : Documents C V) : Option (Documents C V) :=
  ws.foldlM (fun s w => apply w s) s

/-- Updates of a document leave under each key what was last written there. -/
theorem carryOut_updates {r : Ref C} : ∀ {ws : List (DocWrite C V)} {s : Documents C V}
    {data : Fields V}, (∀ w ∈ ws, w = .updateData r w.data) → s.get r = some data →
    ∃ s' data', carryOut ws s = some s' ∧ s'.get r = some data' ∧
      ∀ key, data'.lookup key = (DocWrite.lastWritten key ws).or (data.lookup key)
  | [], s, data, _, hs => ⟨s, data, rfl, hs, fun _ => by simp [DocWrite.lastWritten]⟩
  | w :: ws, s, data, hw, hs => by
      have hupdate : apply w s = some (s.set r (w.data ++ data)) := by
        rw [hw w List.mem_cons_self]
        simp only [apply, hs, Option.map_some, DocWrite.data]
      have hget : (s.set r (w.data ++ data)).get r = some (w.data ++ data) := by
        rw [get_set, if_pos rfl]
      obtain ⟨s', data', hrun, hs', hlook⟩ :=
        carryOut_updates (fun v hv => hw v (List.mem_cons_of_mem _ hv)) hget
      refine ⟨s', data', ?_, hs', fun key => ?_⟩
      · rw [carryOut, List.foldlM_cons, hupdate]
        exact hrun
      · rw [hlook, List.lookup_append, DocWrite.lastWritten, Option.or_assoc]

theorem carryOut_set {r : Ref C} {data : Fields V} {ws : List (DocWrite C V)}
    (hw : ∀ w ∈ ws, w = .updateData r w.data) (s : Documents C V) :
    ∃ s' data', carryOut (.setData r data :: ws) s = some s' ∧ s'.get r = some data' ∧
      ∀ key, data'.lookup key = DocWrite.lastWritten key (.setData r data :: ws) := by
  have hget : (s.set r data).get r = some data := by rw [get_set, if_pos rfl]
  exact carryOut_updates hw hget

/-! ## Writes on top -/

/-- The documents with writes laid over them that are still to be carried
out. One that would fail changes nothing. -/
def overlay (s : Documents C V) (ws : List (DocWrite C V)) : Documents C V :=
  ws.foldl (fun s w => (apply w s).getD s) s

theorem get_apply_other {w : DocWrite C V} {s : Documents C V} {r : Ref C} (h : w.ref ≠ r) :
    ((apply w s).getD s).get r = s.get r := by
  cases ha : apply w s with
  | none => rfl
  | some s' => rw [Option.getD_some, get_apply ha, if_neg (Ne.symm h)]

theorem get_overlay_other {r : Ref C} : ∀ {ws : List (DocWrite C V)} {s : Documents C V},
    (∀ w ∈ ws, w.ref ≠ r) → (s.overlay ws).get r = s.get r
  | [], _, _ => rfl
  | _ :: _, _, h =>
      (get_overlay_other fun w hw => h w (List.mem_cons_of_mem _ hw)).trans
        (get_apply_other (h _ List.mem_cons_self))

/-- The last write of a document counts. -/
theorem get_overlay_last {r : Ref C} {data : Fields V} {pre post : List (DocWrite C V)}
    {s : Documents C V} (h : ∀ w ∈ post, w.ref ≠ r) :
    (s.overlay (pre ++ .setData r data :: post)).get r = some data := by
  rw [overlay, List.foldl_append, List.foldl_cons]
  refine (get_overlay_other h).trans ?_
  simp only [apply, Option.getD_some]
  rw [get_set, if_pos rfl]

/-! ## Collections -/

/-- The ids of a collection's documents. -/
def ids (s : Documents C V) (c : C) : List String :=
  s.keys.filterMap fun r => if r.collection = c then some r.id else none

def count (s : Documents C V) (c : C) : Nat := (s.ids c).length

theorem mem_ids {s : Documents C V} {c : C} {i : String} :
    i ∈ s.ids c ↔ (s.get ⟨c, i⟩).isSome := by
  simp only [ids, List.mem_filterMap, Option.ite_none_right_eq_some, Option.some.injEq]
  rw [get, AList.lookup_isSome]
  constructor
  · rintro ⟨⟨_, _⟩, hr, rfl, rfl⟩; exact hr
  · exact fun h => ⟨⟨c, i⟩, h, rfl, rfl⟩

theorem nodup_ids (s : Documents C V) (c : C) : (s.ids c).Nodup := by
  refine List.Nodup.filterMap (fun r r' i hi hi' => ?_) s.nodupKeys
  simp only [Option.mem_def, Option.ite_none_right_eq_some, Option.some.injEq] at hi hi'
  obtain ⟨_, _⟩ := r
  obtain ⟨_, _⟩ := r'
  obtain ⟨rfl, rfl⟩ := hi
  obtain ⟨rfl, rfl⟩ := hi'
  rfl

/-- The number of documents, as the size of any set that has their ids. -/
theorem count_eq_card {s : Documents C V} {c : C} {u : Finset String}
    (h : ∀ i, i ∈ u ↔ (s.get ⟨c, i⟩).isSome) : s.count c = u.card := by
  rw [count, ← List.toFinset_card_of_nodup (s.nodup_ids c)]
  congr 1
  ext i
  rw [List.mem_toFinset, mem_ids, h]

theorem count_congr {s s' : Documents C V} {c : C}
    (h : ∀ i, (s'.get ⟨c, i⟩).isSome = (s.get ⟨c, i⟩).isSome) : s'.count c = s.count c :=
  ((List.perm_ext_iff_of_nodup (s'.nodup_ids c) (s.nodup_ids c)).mpr fun i => by
    rw [mem_ids, mem_ids, h]).length_eq

/-- A document more counts as one. -/
theorem count_of_new {s s' : Documents C V} {c : C} {i : String}
    (hold : (s.get ⟨c, i⟩).isSome = false) (hnew : (s'.get ⟨c, i⟩).isSome = true)
    (hrest : ∀ j, j ≠ i → (s'.get ⟨c, j⟩).isSome = (s.get ⟨c, j⟩).isSome) :
    s'.count c = s.count c + 1 := by
  have hi : i ∉ s.ids c := fun h => by rw [mem_ids, hold] at h; cases h
  have hp : (s'.ids c).Perm (i :: s.ids c) := by
    refine (List.perm_ext_iff_of_nodup (s'.nodup_ids c)
      (List.nodup_cons.mpr ⟨hi, s.nodup_ids c⟩)).mpr fun j => ?_
    rw [List.mem_cons, mem_ids, mem_ids]
    by_cases hj : j = i
    · subst hj
      simp [hnew]
    · simp [hj, hrest j hj]
  rw [count, count, hp.length_eq, List.length_cons]

variable [DecidableEq V] [LE V] [DecidableLE V]

def select (s : Documents C V) (q : Query C V) : List (String × Fields V) :=
  (s.entries.filterMap fun ⟨r, data⟩ =>
    if r.collection = q.collection ∧ q.selects data then some (r.id, data) else none).insertionSort
      q.before

theorem mem_select {s : Documents C V} {q : Query C V} {i : String} {data : Fields V} :
    (i, data) ∈ s.select q ↔ s.get ⟨q.collection, i⟩ = some data ∧ q.selects data := by
  rw [select, List.mem_insertionSort, List.mem_filterMap]
  have hl : ∀ r, s.get r = some data ↔ ⟨r, data⟩ ∈ s.entries := fun r =>
    AList.mem_lookup_iff (s := s)
  constructor
  · rintro ⟨⟨⟨_, _⟩, _⟩, hr, h⟩
    simp only [Option.ite_none_right_eq_some, Option.some.injEq, Prod.mk.injEq] at h
    obtain ⟨⟨rfl, hq⟩, rfl, rfl⟩ := h
    exact ⟨(hl _).mpr hr, hq⟩
  · rintro ⟨h, hq⟩
    exact ⟨⟨⟨q.collection, i⟩, data⟩, (hl _).mp h, by simp [hq]⟩

theorem nodup_select (s : Documents C V) (q : Query C V) : ((s.select q).map Prod.fst).Nodup := by
  rw [select, ((List.perm_insertionSort _ _).map _).nodup_iff, List.Nodup, List.pairwise_map,
    List.pairwise_filterMap]
  refine (List.nodupKeys_iff_pairwise.mp s.nodupKeys).imp ?_
  rintro ⟨⟨c, i⟩, data⟩ ⟨⟨c', i'⟩, data'⟩ hne x hx y hy hid
  simp only [Option.ite_none_right_eq_some, Option.some.injEq] at hx hy
  obtain ⟨⟨rfl, -⟩, rfl⟩ := hx
  obtain ⟨⟨rfl, -⟩, rfl⟩ := hy
  obtain rfl : i = i' := hid
  exact hne rfl

/-- Without an order a query returns its documents by id. -/
theorem pairwise_select_id (s : Documents C V) {q : Query C V} (hq : q.orderBy = none) :
    (s.select q).Pairwise fun a b => a.1 < b.1 := by
  have hbefore : ∀ a b : String × Fields V, q.before a b ↔ a.1 ≤ b.1 := fun a b => by
    simp only [Query.before, hq]
  have : Std.Total q.before :=
    ⟨fun a b => by simp only [hbefore]; exact String.le_total a.1 b.1⟩
  have : IsTrans (String × Fields V) q.before :=
    ⟨fun a b c => by simp only [hbefore]; exact String.le_trans⟩
  have hsorted : (s.select q).Pairwise q.before := List.pairwise_insertionSort _ _
  refine (hsorted.and (List.pairwise_map.mp (s.nodup_select q))).imp ?_
  exact fun ⟨hle, hne⟩ => String.not_le.mp fun h => hne (String.le_antisymm ((hbefore _ _).mp hle) h)

/-- The order of values, newest first, and of ids. -/
def newer (a b : V × String) : Prop := b.1 ≤ a.1 ∧ (a.1 ≤ b.1 → b.2 ≤ a.2)

instance : DecidableRel (newer (V := V)) := fun _ _ => inferInstanceAs (Decidable (_ ∧ _))

instance [Std.Total fun x y : V => x ≤ y] : Std.Total (newer (V := V)) :=
  ⟨fun a b => by
    by_cases hab : a.1 ≤ b.1
    · by_cases hba : b.1 ≤ a.1
      · exact (String.le_total b.2 a.2).imp (fun h => ⟨hba, fun _ => h⟩) fun h => ⟨hab, fun _ => h⟩
      · exact Or.inr ⟨hab, fun h => absurd h hba⟩
    · exact Or.inl ⟨(Std.Total.total a.1 b.1).resolve_left hab, fun h => absurd h hab⟩⟩

instance [IsTrans V (· ≤ ·)] : IsTrans (V × String) newer :=
  ⟨fun _ _ _ hab hbc => ⟨IsTrans.trans _ _ _ hbc.1 hab.1, fun hac =>
    String.le_trans (hbc.2 (IsTrans.trans _ _ _ hab.1 hac)) (hab.2 (IsTrans.trans _ _ _ hac hbc.1))⟩⟩

/-- With one it returns them newest first. -/
theorem pairwise_select_field [Std.Total fun x y : V => x ≤ y] [IsTrans V (· ≤ ·)]
    (s : Documents C V) {q : Query C V} {k : String} (hq : q.orderBy = some k) :
    (s.select q).Pairwise fun a b =>
      ∀ x y, a.2.lookup k = some x → b.2.lookup k = some y → y ≤ x := by
  -- the documents selected all have the field: their order is that of its values
  have hhas : ∀ a ∈ s.select q, (a.2.lookup k).isSome := fun a ha => by
    have hsel := (mem_select.mp ha).2
    simp only [Query.selects, hq, Bool.and_eq_true] at hsel
    exact hsel.2
  cases hl : s.select q with
  | nil => exact .nil
  | cons a₀ l =>
      obtain ⟨v₀, -⟩ := Option.isSome_iff_exists.mp (hhas a₀ (hl ▸ List.mem_cons_self))
      have hval : ∀ a ∈ s.select q, a.2.lookup k = some ((a.2.lookup k).getD v₀) := fun a ha => by
        obtain ⟨v, hv⟩ := Option.isSome_iff_exists.mp (hhas a ha)
        rw [hv, Option.getD_some]
      have hsorted : ((s.select q).map fun a => ((a.2.lookup k).getD v₀, a.1)).Pairwise
          newer := by
        rw [select, List.map_insertionSort _ newer]
        · exact List.pairwise_insertionSort _ _
        · intro a ha b hb
          have ha := hval a ((List.mem_insertionSort _).mpr ha)
          have hb := hval b ((List.mem_insertionSort _).mpr hb)
          simp only [Query.before, hq]
          rw [ha, hb]
          rfl
      rw [← hl]
      refine (List.pairwise_map.mp hsorted).imp fun h x y hx hy => ?_
      have hle := h.1
      rwa [hx, hy] at hle

end Documents

end Async
