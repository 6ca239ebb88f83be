import DogVillage.Async.Echo
import DogVillage.Footprint

/-!
# Memberships kept twice

The app keeps a membership as two documents, one under each end: who
follows whom, who likes which post. The handler of the write to the first
document issues the write to the second. A `Mirror` says where the two
documents are; it is an `Echo` whose values are whether a document is
there.
-/

namespace DogVillage

open Async

/-- A write puts its document in place or takes it away, unless it is
refused. -/
theorem present_settle {wr : Write} {fail : Option FIRError} {srv : Server} {r : Ref Collection}
    (hfail : ∀ b, wr.puts = some (r, b) → fail = none) :
    (settle village wr fail srv).1.present r =
      (Echo.valuesOf r wr.puts.toList).getLastD (srv.present r) := by
  cases wr with
  | setData r' data =>
      by_cases hr : r' = r
      · subst hr
        rw [hfail true rfl]
        simp [settle, village, Server.apply, Documents.apply, Server.present, Documents.get_set,
          DocWrite.puts, Echo.valuesOf]
      · rw [Server.present_congr (docs_settle fun _ => by exact hr)]
        simp [DocWrite.puts, Echo.valuesOf, hr]
  | updateData r' data =>
      have hnil : Echo.valuesOf r (DocWrite.updateData r' data : Write).puts.toList = [] := rfl
      rw [hnil, List.getLastD_nil]
      cases hres : (settle village (.updateData r' data) fail srv).2 with
      | some err => exact Server.present_congr (by rw [docs_refused hres])
      | none =>
          obtain ⟨-, docs, hdocs, hset⟩ := docs_accepted hres
          rw [hset]
          simp only [Server.present, Documents.get_apply hdocs]
          by_cases hr : r = (DocWrite.updateData r' data : Write).ref
          · obtain ⟨old, hold, -⟩ := Option.map_eq_some_iff.mp hdocs
            simp [hr, Documents.written, DocWrite.ref, hold]
          · simp [hr]
  | delete r' =>
      by_cases hr : r' = r
      · subst hr
        rw [hfail false rfl]
        simp [settle, village, Server.apply, Documents.apply, Server.present, Documents.get_erase,
          DocWrite.puts, Echo.valuesOf]
      · rw [Server.present_congr (docs_settle fun _ => by exact hr)]
        simp [DocWrite.puts, Echo.valuesOf, hr]

structure Mirror (K : Type) where
  original : K → Ref Collection
  copy : K → Ref Collection
  /-- The key whose document this is. -/
  originalKey : Ref Collection → Option K
  copyKey : Ref Collection → Option K
  originalKey_eq : ∀ {r k}, originalKey r = some k ↔ r = original k
  copyKey_eq : ∀ {r k}, copyKey r = some k ↔ r = copy k
  /-- The key a call is about. -/
  key : Call → Option K

namespace Mirror

variable {K : Type} (m : Mirror K)

def echo : Echo village K Bool where
  first wr := wr.puts.bind fun x => (m.originalKey x.1).map (·, x.2)
  second wr := wr.puts.bind fun x => (m.copyKey x.1).map (·, x.2)
  key := m.key
  primary srv k := srv.present (m.original k)
  replica srv k := srv.present (m.copy k)

variable {m}

theorem valuesOf_bind [DecidableEq K] {f : Ref Collection → Option K} {r : Ref Collection} {k : K}
    (hf : ∀ {r'}, f r' = some k ↔ r' = r) (x : Option (Ref Collection × Bool)) :
    Echo.valuesOf k (x.bind fun x => (f x.1).map (·, x.2)).toList =
      Echo.valuesOf r x.toList := by
  rcases x with _ | ⟨r', b⟩
  · rfl
  · by_cases hr : r' = r
    · subst hr
      simp [Echo.valuesOf, hf.mpr rfl]
    · cases hk : f r' with
      | none => simp [Echo.valuesOf, hk, hr]
      | some k' =>
          have hne : k' ≠ k := fun h => hr (hf.mp (by rw [hk, h]))
          simp [Echo.valuesOf, hk, hr, hne]

/-- Code that writes in neither place. -/
theorem follows_of_touches {C : Collection → Prop} {b : Block} {t : Call} (h : Touches C b)
    (hC : ∀ r : Ref Collection, C r.collection → m.originalKey r = none ∧ m.copyKey r = none) :
    m.echo.Follows t none b := by
  have none_of : ∀ {f : Ref Collection → Option K} {wr : Write}, f wr.ref = none →
      (wr.puts.bind fun x => (f x.1).map (·, x.2)) = none := by
    intro f wr hf
    cases wr <;> simp_all [DocWrite.puts, DocWrite.ref]
  exact Echo.follows_of_writes (h.mono fun wr hwr => ⟨none_of (hC _ hwr).1, none_of (hC _ hwr).2⟩)

variable {D : Type} [DecidableEq D] [DecidableEq K] {w w' : World village D} {e : Event village D}

/-- A step keeps the two documents of every key in line, if it refuses no
write to one of them. -/
theorem step (h : m.echo.Echoing w) (hex : m.echo.Exclusive w) (hs : Stepped w e w')
    (hact : ∀ a app, m.echo.Follows ⟨app.currentUser, Action.op a app⟩ none (a.block.start app))
    (hfail : ∀ d fail n ns, e = .commit d fail → (w.devices d).writes = n :: ns →
      (m.echo.first n.write).isSome ∨ (m.echo.second n.write).isSome → fail = none) :
    m.echo.Echoing w' := by
  refine h.step hex hs (fun d a _ => hact a _) (fun d fail n ns k he hn => ?_) fun hne k => ?_
  · subst he
    have hfail' := hfail d fail n ns rfl hn
    have hw' : w'.server = (settle village n.write fail w.server).1 := by
      cases hs with
      | commit hn' => rw [hn] at hn'; cases hn'; rfl
    refine ⟨?_, ?_⟩
    · rw [Mirror.echo, valuesOf_bind fun {r'} => m.originalKey_eq]
      simp only [hw']
      refine present_settle fun b hb => hfail' (Or.inl ?_)
      simp [Mirror.echo, hb, m.originalKey_eq.mpr rfl]
    · rw [Mirror.echo, valuesOf_bind fun {r'} => m.copyKey_eq]
      simp only [hw']
      refine present_settle fun b hb => hfail' (Or.inr ?_)
      simp [Mirror.echo, hb, m.copyKey_eq.mpr rfl]
  · have hdocs : w'.server.docs = w.server.docs := by
      rcases docsStep hs with hdocs | ⟨he, -⟩
      · exact hdocs
      · exact absurd he (hne _ _)
    simp only [Mirror.echo, Server.present, hdocs, and_self]

omit [DecidableEq K] in
theorem tidy_empty {app : App} : m.echo.Tidy ({ loc := app } : Device village) where
  main _ h := by cases h
  inbox _ h := by cases h
  pool _ h := by cases h
  writes _ h := by cases h
  asks _ h := by cases h
  listeners _ h := by cases h

omit [DecidableEq D] in
theorem echoing_empty : m.echo.Echoing (emptyWorld (D := D)) := by
  refine ⟨fun d => tidy_empty, fun k l _ hl => ?_⟩
  have hl' : l = [] := by
    rcases hl with rfl | ⟨d, rfl⟩
    · rfl
    · rfl
  subst hl'
  rfl

/-- Nothing on the device may still write the copy under `k`: nothing is due. -/
theorem dueFor_eq_nil {dev : Device village} {k : K}
    (h : dev.Writes fun wr : Write => wr.ref ≠ m.copy k) : m.echo.dueFor k dev = [] := by
  have hwr : ∀ {wr : Write} {b : Bool}, wr.ref ≠ m.copy k → m.echo.second wr ≠ some (k, b) := by
    intro wr b hne hsec
    obtain ⟨⟨r, b'⟩, hputs, hk⟩ := Option.bind_eq_some_iff.mp hsec
    obtain ⟨k', hk', heq⟩ := Option.map_eq_some_iff.mp hk
    cases heq
    refine hne ?_
    rw [← m.copyKey_eq.mp hk']
    cases wr <;> cases hputs <;> rfl
  refine Echo.valuesOf_eq_nil fun kv hkv hkv' => ?_
  obtain ⟨k', b⟩ := kv
  subst hkv'
  rcases List.mem_append.mp hkv with hkv | hkv
  · obtain ⟨n, hn, hsec⟩ := List.mem_filterMap.mp hkv
    exact hwr (h.writes n hn).1 hsec
  · obtain ⟨j, hj, hnext⟩ := List.mem_filterMap.mp hkv
    have hcode := h.jobs j (by
      rcases List.mem_append.mp hj with hj | hj
      · exact List.mem_append_left _ (List.mem_append_left _ hj)
      · exact List.mem_append_left _ (List.mem_append_right _ hj))
    cases hc : j.code with
    | write wr hd n =>
        rw [hc] at hcode hnext
        exact hwr hcode.1 hnext
    | _ => rw [hc] at hnext; cases hnext

end Mirror

end DogVillage
