import DogVillage.Failures

/-!
# What an action leaves in the documents

One action on an otherwise idle device, run alone until all is answered,
nothing failing: the writes that were carried out, document by document,
and what its queries were answered.
-/

namespace DogVillage

open Async

/-- The writes of a document that were carried out. -/
def accepted (r : Ref Collection) (o : Multiset (Obs sig)) : Multiset Write :=
  o.filterMap fun
    | .wrote wr none => if wr.ref = r then some wr else none
    | _ => none

section

variable {r : Ref Collection} {o o' : Multiset (Obs sig)}

@[simp] theorem accepted_zero : accepted r 0 = 0 := rfl

@[simp] theorem accepted_add : accepted r (o + o') = accepted r o + accepted r o' :=
  Multiset.filterMap_add _ _ _

theorem accepted_eq_zero_add : accepted r (o + o') = 0 ↔ accepted r o = 0 ∧ accepted r o' = 0 := by
  simp only [accepted_add, ← Multiset.card_eq_zero, Multiset.card_add, Nat.add_eq_zero_iff]

@[simp] theorem accepted_cons (x : Obs sig) :
    accepted r (x ::ₘ o) = accepted r {x} + accepted r o := by
  rw [← Multiset.singleton_add, accepted_add]

@[simp] theorem accepted_acted : accepted r {.acted} = 0 := rfl
@[simp] theorem accepted_changed (f : App → App) : accepted r {.changed f} = 0 := rfl
@[simp] theorem accepted_issued (w : Write) : accepted r {.issued w} = 0 := rfl
@[simp] theorem accepted_answered (q : Ask) (a : q.Ans) : accepted r {.answered q a} = 0 := rfl
@[simp] theorem accepted_supplied (v : Env) : accepted r {.supplied v} = 0 := rfl
@[simp] theorem accepted_refused (w : Write) (e : FIRError) :
    accepted r {.wrote w (some e)} = 0 := rfl

theorem accepted_wrote (w : Write) :
    accepted r {.wrote w none} = if w.ref = r then {w} else 0 := by
  rw [accepted, ← Multiset.coe_singleton, Multiset.filterMap_coe]
  by_cases h : w.ref = r <;> simp [h]

theorem mem_accepted {wr : Write} : wr ∈ accepted r o ↔ .wrote wr none ∈ o ∧ wr.ref = r := by
  simp only [accepted, Multiset.mem_filterMap]
  constructor
  · rintro ⟨x, hx, h⟩
    split at h
    · next wr' =>
        split at h
        · next hr => cases h; exact ⟨hx, hr⟩
        · cases h
    · cases h
  · rintro ⟨hx, hr⟩
    exact ⟨_, hx, by simp [hr]⟩

/-- Where every write is of another collection. -/
theorem accepted_eq_zero (h : ∀ wr, .wrote wr none ∈ o → wr.ref ≠ r) : accepted r o = 0 :=
  Multiset.eq_zero_of_forall_notMem fun wr hwr => h wr (mem_accepted.mp hwr).1 (mem_accepted.mp hwr).2

end

/-- Nothing fails. -/
structure Smooth {D : Type} (e : Event village D) : Prop where
  commit : ∀ d fail, e = .commit d fail → fail = none
  answer : ∀ d i err, e ≠ .answer d i (.fail err)

section

variable {D : Type} [DecidableEq D] {d : D} {w w' w₀ w₁ : World village D}
  {e : Event village D} {o o' : Multiset (Obs sig)}

/-- What `o`, seen of one device, says about the server before and after. -/
structure Traced (srv srv' : Server) (o : Multiset (Obs sig)) : Prop where
  /-- The documents are what the writes carried out made of them. -/
  docs : ∀ r, ∃ ws : List Write, (ws : Multiset Write) = accepted r o ∧
    srv'.docs.get r = ws.foldr Documents.written (srv.docs.get r)
  /-- Only an update is refused, of a document that is missing, and was so
  unless it was deleted. -/
  refused : ∀ wr err, .wrote wr (some err) ∈ o → ∃ r data, wr = .updateData r data ∧
    (accepted r o = 0 → srv.docs.get r = none)
  /-- A query is answered, and from the documents as they were if no write
  to its collection was carried out. -/
  answers : ∀ q a, .answered (.getDocuments q) a ∈ o → ∃ documents, a = some documents ∧
    ((∀ wr, .wrote wr none ∈ o → wr.ref.collection ≠ q.collection) → ∀ x, x ∈ documents ↔
      srv.docs.get ⟨q.collection, x.1⟩ = some x.2 ∧ q.selects x.2)
  /-- Names handed out are new. -/
  fresh : ∀ v, .supplied v ∈ o → v.uuid ∉ srv.used
  used : srv.used ⊆ srv'.used

theorem Traced.refl {srv : Server} : Traced srv srv 0 where
  docs r := ⟨[], rfl, rfl⟩
  refused _ _ h := by simp at h
  answers _ _ h := by simp at h
  fresh _ h := by simp at h
  used := List.Subset.refl _

/-- A document none of whose writes was carried out is as it was. -/
theorem Traced.kept {srv srv' : Server} (h : Traced srv srv' o) {r : Ref Collection}
    (hr : accepted r o = 0) : srv'.docs.get r = srv.docs.get r := by
  obtain ⟨ws, hws, hget⟩ := h.docs r
  rw [hr, Multiset.coe_eq_zero] at hws
  rw [hget, hws]
  rfl

theorem Traced.trans {srv srv' srv'' : Server} (h : Traced srv srv' o) (h' : Traced srv' srv'' o') :
    Traced srv srv'' (o + o') where
  docs r := by
    obtain ⟨ws, hws, hget⟩ := h.docs r
    obtain ⟨ws', hws', hget'⟩ := h'.docs r
    refine ⟨ws' ++ ws, ?_, ?_⟩
    · rw [← Multiset.coe_add, hws, hws', accepted_add, add_comm]
    · rw [hget', hget, List.foldr_append]
  refused wr err hwr := by
    rcases Multiset.mem_add.mp hwr with hwr | hwr
    · obtain ⟨r, data, rfl, hr⟩ := h.refused wr err hwr
      refine ⟨r, data, rfl, fun hacc => hr ?_⟩
      obtain ⟨hacc, hacc'⟩ := accepted_eq_zero_add.mp hacc
      exact hacc
    · obtain ⟨r, data, rfl, hr⟩ := h'.refused wr err hwr
      refine ⟨r, data, rfl, fun hacc => ?_⟩
      obtain ⟨hacc, hacc'⟩ := accepted_eq_zero_add.mp hacc
      rw [← h.kept hacc]
      exact hr hacc'
  answers q a ha := by
    rcases Multiset.mem_add.mp ha with ha | ha
    · obtain ⟨documents, rfl, hmem⟩ := h.answers q a ha
      exact ⟨documents, rfl, fun hq => hmem fun wr hwr =>
        hq wr (Multiset.mem_add.mpr (Or.inl hwr))⟩
    · obtain ⟨documents, rfl, hmem⟩ := h'.answers q a ha
      refine ⟨documents, rfl, fun hq x => ?_⟩
      rw [hmem (fun wr hwr => hq wr (Multiset.mem_add.mpr (Or.inr hwr))) x,
        h.kept (accepted_eq_zero fun wr hwr hr =>
          hq wr (Multiset.mem_add.mpr (Or.inl hwr)) (by rw [hr]))]
  fresh v hv := by
    rcases Multiset.mem_add.mp hv with hv | hv
    · exact h.fresh v hv
    · exact fun hu => h'.fresh v hv (h.used hu)
  used := List.Subset.trans h.used h'.used

/-! ## Marks -/

section

variable {gone : Bool} {srv srv' : Server}

/-- The write that takes an empty document away, or puts it in place. -/
def markWrite (gone : Bool) (r : Ref Collection) : Write :=
  if gone then .delete r else .setData r []

@[simp] theorem ref_markWrite (r : Ref Collection) : (markWrite gone r).ref = r := by
  cases gone <;> rfl

@[simp] theorem puts_markWrite (r : Ref Collection) :
    (markWrite gone r).puts = some (r, !gone) := by
  cases gone <;> rfl

theorem markWrite_ne (r r' : Ref Collection) (data : Dictionary) :
    markWrite gone r ≠ .updateData r' data := by
  cases gone <;> simp [markWrite]

theorem written_markWrite (r : Ref Collection) (old : Option Dictionary) :
    Documents.written (markWrite gone r) old = if gone then none else some [] := by
  cases gone <;> rfl

/-- A document all of whose writes leave it the same. -/
theorem Traced.settled (h : Traced srv srv' o) {r : Ref Collection} {x : Option Dictionary}
    (hall : ∀ wr : Write, .wrote wr none ∈ o → wr.ref = r → ∀ old, Documents.written wr old = x)
    (hex : ∃ wr : Write, .wrote wr none ∈ o ∧ wr.ref = r) : srv'.docs.get r = x := by
  obtain ⟨ws, hws, hget⟩ := h.docs r
  obtain ⟨wr, hwr, hr⟩ := hex
  have hmem : ∀ wr', wr' ∈ ws ↔ .wrote wr' none ∈ o ∧ wr'.ref = r := fun wr' => by
    rw [← mem_accepted, ← hws, Multiset.mem_coe]
  cases ws with
  | nil => exact absurd ((hmem wr).mpr ⟨hwr, hr⟩) List.not_mem_nil
  | cons wr' ws =>
      obtain ⟨hwr', hr'⟩ := (hmem wr').mp List.mem_cons_self
      rw [hget, List.foldr_cons, hall wr' hwr' hr']

/-- A document whose only write is a mark. -/
theorem Traced.mark (h : Traced srv srv' o) {r : Ref Collection}
    (hall : ∀ wr : Write, .wrote wr none ∈ o → wr.ref = r → wr = markWrite gone r)
    (hex : .wrote (markWrite gone r) none ∈ o) :
    srv'.docs.get r = if gone then none else some [] :=
  h.settled (fun wr hwr hr old => by rw [hall wr hwr hr, written_markWrite])
    ⟨_, hex, ref_markWrite r⟩

/-- A document whose only write is one update. -/
theorem Traced.updated (h : Traced srv srv' o) {r : Ref Collection} {data : Dictionary}
    (hall : ∀ wr : Write, .wrote wr none ∈ o → wr.ref = r → wr = .updateData r data)
    (hex : .wrote (.updateData r data) none ∈ o) (hold : (srv.docs.get r).isSome = true) :
    ∃ old, srv'.docs.get r = some (data ++ old) := by
  obtain ⟨ws, hws, hget⟩ := h.docs r
  have hmem : ∀ wr ∈ ws, wr = .updateData r data := fun wr hwr => by
    rw [← Multiset.mem_coe, hws, mem_accepted] at hwr
    exact hall wr hwr.1 hwr.2
  have hfold : ∀ l : List Write, (∀ wr ∈ l, wr = .updateData r data) →
      (l.foldr Documents.written (srv.docs.get r)).isSome = true := by
    intro l hl
    induction l with
    | nil => exact hold
    | cons wr l ih =>
        rw [List.foldr_cons, hl wr List.mem_cons_self, Documents.written, Option.isSome_map]
        exact ih fun wr' hwr' => hl wr' (List.mem_cons_of_mem _ hwr')
  cases ws with
  | nil =>
      have hnot : DocWrite.updateData r data ∈ accepted r o := mem_accepted.mpr ⟨hex, rfl⟩
      rw [← hws] at hnot
      simp at hnot
  | cons wr ws =>
      obtain ⟨old, hold'⟩ := Option.isSome_iff_exists.mp
        (hfold ws fun wr' hwr' => hmem wr' (List.mem_cons_of_mem _ hwr'))
      exact ⟨old, by rw [hget, List.foldr_cons, hmem wr List.mem_cons_self, hold']; rfl⟩

end

/-! ## One step -/

/-- What reports neither a write nor an answer leaves the documents alone. -/
theorem Traced.own {srv srv' : Server} (hdocs : srv'.docs = srv.docs)
    (hused : srv.used ⊆ srv'.used) (hown : ∀ x ∈ o, x.isOwn = true)
    (hsup : ∀ v, .supplied v ∈ o → v.uuid ∉ srv.used) : Traced srv srv' o where
  docs r := by
    refine ⟨[], (accepted_eq_zero fun wr hwr => ?_).symm, by rw [hdocs]; rfl⟩
    cases hown _ hwr
  refused wr err h := by cases hown _ h
  answers q a h := by cases hown _ h
  fresh := hsup
  used := hused

theorem traced_of_exec {t : Call} {v : Env} {srv : Server} {dev : Device village} {c : Block}
    {r : Turn village} (h : exec t v srv dev c = some r) : Traced srv r.server r.obs := by
  cases c with
  | done => cases h
  | env k =>
      obtain ⟨srv', hs, rfl⟩ := Option.map_eq_some_iff.mp h
      refine .own (docs_supply hs) (used_supply hs) (by simp [Obs.isOwn]) fun v' hv' => ?_
      cases List.mem_singleton.mp (Multiset.mem_coe.mp hv')
      intro hused
      rw [show village.supply v srv = Server.supply v srv from rfl, Server.supply, if_pos hused] at hs
      cases hs
  | _ => cases h; exact .own rfl (List.Subset.refl _) (by simp [Obs.isOwn]) (by simp)

theorem refused_update {wr : Write} {srv : Server} {err : FIRError}
    (h : (settle village wr none srv).2 = some err) :
    ∃ r data, wr = .updateData r data ∧ srv.docs.get r = none := by
  cases wr with
  | updateData r data =>
      refine ⟨r, data, rfl, ?_⟩
      cases hget : srv.docs.get r with
      | none => rfl
      | some old =>
          simp only [settle, village, Server.apply, Documents.apply, hget, Option.map_some] at h
          cases h
  | setData r data => cases h
  | delete r => cases h

theorem traced_of_commit {wr : Write} {srv : Server} :
    Traced srv (settle village wr none srv).1 {.wrote wr (settle village wr none srv).2} where
  docs r := by
    cases hres : (settle village wr none srv).2 with
    | some err => exact ⟨[], rfl, congrArg (·.get r) (docs_refused hres)⟩
    | none =>
        obtain ⟨-, docs, ha, hset⟩ := docs_accepted hres
        have hget := Documents.get_apply ha r
        have hsrv : (settle village wr none srv).1.docs.get r = docs.get r :=
          congrArg (fun s : Server => s.docs.get r) hset
        rw [accepted_wrote]
        by_cases hr : wr.ref = r
        · rw [if_pos hr.symm] at hget
          exact ⟨[wr], by rw [if_pos hr]; rfl, hsrv.trans hget⟩
        · rw [if_neg (Ne.symm hr)] at hget
          exact ⟨[], by rw [if_neg hr]; rfl, hsrv.trans hget⟩
  refused wr' err h := by
    obtain ⟨rfl, hr⟩ := Obs.wrote.inj (Multiset.mem_singleton.mp h)
    obtain ⟨r, data, hwr, hget⟩ := refused_update hr.symm
    exact ⟨r, data, hwr, fun _ => hget⟩
  answers q a h := by cases Multiset.mem_singleton.mp h
  fresh v h := by cases Multiset.mem_singleton.mp h
  used := used_settle

theorem traced_of_serve {q : Ask} {c : Server.Choice} {srv srv' : Server} {a : q.Ans}
    (hc : ∀ err, c ≠ .fail err) (h : Server.serve q c srv = some (a, srv')) :
    Traced srv srv' {.answered q a} where
  docs r := ⟨[], rfl, congrArg (·.get r) (docs_serve h)⟩
  refused wr err hw := by cases Multiset.mem_singleton.mp hw
  answers q' a' ha := by
    cases Multiset.mem_singleton.mp ha
    cases c with
    | ok => cases h; exact ⟨_, rfl, fun _ x => Documents.mem_select⟩
    | fail err => exact absurd rfl (hc err)
    | uid | url => cases h
  fresh v h := by cases Multiset.mem_singleton.mp h
  used := used_serve h

theorem traced_of_step (hs : Stepped w e w') (he : Alone d e) (hsm : Smooth e) :
    ∃ o, w'.seen d = w.seen d + o ∧ Traced w.server w'.server o := by
  obtain ⟨hd, hact, hnotify⟩ := he
  cases hs with
  | act => cases hd; exact absurd rfl (hact _)
  | notify => cases hd; exact absurd rfl (hnotify _ _)
  | next | finish =>
      cases hd
      exact ⟨_, World.seen_put, .refl⟩
  | run htake hexec =>
      cases hd
      exact ⟨_, World.seen_put, traced_of_exec hexec⟩
  | commit hw =>
      cases hd
      cases hsm.commit _ _ rfl
      exact ⟨_, World.seen_put, traced_of_commit⟩
  | answer hi hv =>
      cases hd
      exact ⟨_, World.seen_put, traced_of_serve (fun err hc => hsm.answer _ _ err (by rw [hc])) hv⟩

theorem traced_of_run (hrun : Run (fun _ e => Alone d e ∧ Smooth e) w₁ w) :
    ∃ o, w.seen d = w₁.seen d + o ∧ Traced w₁.server w.server o := by
  induction hrun with
  | refl => exact ⟨0, by simp, .refl⟩
  | step _ he hstep ih =>
      obtain ⟨o, ho, h⟩ := ih
      obtain ⟨o', ho', h'⟩ := traced_of_step (stepped_of_step hstep) he.1 he.2
      exact ⟨o + o', by rw [ho', ho, add_assoc], h.trans h'⟩

/-- An action on an otherwise idle device, alone and without a failure,
until nothing is outstanding. -/
structure RunsAlone (d : D) (a : Action) (w₀ w : World village D) : Prop where
  idle : (w₀.devices d).idle = true
  run : ∃ w₁, step w₀ (.act d a) = some w₁ ∧ Run (fun _ e => Alone d e ∧ Smooth e) w₁ w
  done : (w.devices d).idle = true

/-- Taking up an action touches neither the server nor the memory. -/
theorem acted {a : Action} (hact : step w₀ (.act d a) = some w₁) :
    w₁.server = w₀.server ∧ w₁.seen d = w₀.seen d + {.acted} ∧
      (w₁.devices d).loc = (w₀.devices d).loc := by
  cases stepped_of_step hact with
  | act => exact ⟨rfl, World.seen_put, by rw [World.put_device]; rfl⟩

/-- What such a run shows is an outcome of the action's block, and tells
what became of the server. -/
theorem RunsAlone.traced {a : Action} (h : RunsAlone d a w₀ w) :
    ∃ o, Traced w₀.server w.server o ∧ ∀ I : App → Prop, I (w₀.devices d).loc → Kept I o →
      Outcome I (a.block.start (w₀.devices d).loc) o := by
  obtain ⟨w₁, hact, hrun⟩ := h.run
  obtain ⟨o, ho, htr⟩ := traced_of_run hrun
  obtain ⟨hsrv, hseen, -⟩ := acted hact
  rw [hseen, add_assoc] at ho
  rw [hsrv] at htr
  obtain ⟨o', ho', -, -, hout⟩ :=
    seen_of_run h.idle hact (hrun.mono fun _ _ h => h.1) h.done ho
  rw [add_right_inj] at ho'
  subst ho'
  exact ⟨o, htr, hout⟩

/-- `smooth` answers no call with a failure. -/
theorem smooth_choice (q : Ask) (srv : Server) (err : FIRError) :
    smooth.choice q srv ≠ .fail err := by
  cases q <;> intro h <;> cases h

omit [DecidableEq D] in
/-- The events `smooth` picks for a device are its own, and none fails. -/
theorem smooth_pick (h : smooth.pick d w = some e) : Alone d e ∧ Smooth e := by
  have hown := Policy.pick_own h
  refine ⟨⟨hown.1, hown.2⟩, fun d' fail he => smooth_commit (he ▸ h), fun d' i err he => ?_⟩
  rw [he, Policy.pick] at h
  split at h
  · cases h
  · cases h
  · cases h
  · cases h
  · next m _ _ _ _ _ _ =>
      have hc : smooth.choice m.q w.server = .fail err := by
        injection h with h
        injection h
      exact smooth_choice m.q w.server err hc
  · cases h

/-- An action performed by `smooth`, on a device with nothing else to do. -/
theorem runsAlone_perform {a : Action} {n : Nat} (hidle : (w.devices d).idle = true)
    (hdone : ((smooth.perform d a n w).devices d).idle = true) :
    RunsAlone d a w (smooth.perform d a n w) := by
  have hmain : (w.devices d).main = none := by
    simp only [Device.idle, Bool.and_eq_true, Option.isNone_iff_eq_none] at hidle
    exact hidle.1.1.1.1
  obtain ⟨w₁, hact⟩ : ∃ w₁, step w (.act d a) = some w₁ := by
    simp only [step, hmain]
    exact ⟨_, rfl⟩
  refine ⟨hidle, ⟨w₁, hact, ?_⟩, hdone⟩
  have hperform : smooth.perform d a n w = smooth.drain d n w₁ := by
    simp only [Policy.perform, hact]
  rw [hperform]
  exact Policy.run_drain (fun _ _ h => smooth_pick h) .refl

end

end DogVillage
