import DogVillage.Async.Run

/-!
# One schedule

A scheduler that brings a device to rest, for runs on concrete inputs: it
works through the main thread, then the queues, then the writes, then the
other calls, each answered as a `Policy` says. A condition that allows the
events it picks allows the runs it makes.
-/

namespace Async

variable {S : Sig}

/-- How the surroundings answer. -/
structure Policy (sys : System S) where
  env : sys.Srv → S.Env
  refuse : S.Write → Option S.Err := fun _ => none
  choice : S.Ask → sys.Srv → sys.Choice

variable {sys : System S} {D : Type}

/-- The world a single event leads to, if it can happen. -/
theorem step_getD [DecidableEq D] {w : World sys D} {e : Event sys D}
    (h : (step w e).isSome = true) : step w e = some ((step w e).getD w) :=
  (Option.getD_of_ne_none (Option.isSome_iff_ne_none.mp h) w).symm

namespace Policy

variable (p : Policy sys)

def pick (d : D) (w : World sys D) : Option (Event sys D) :=
  let dev := w.devices d
  match dev.main, dev.inbox, dev.pool, dev.writes, dev.asks with
  | some _, _, _, _, _ => some (.run d .main (p.env w.server))
  | none, _ :: _, _, _, _ => some (.next d)
  | none, [], _ :: _, _, _ => some (.run d (.pool 0) (p.env w.server))
  | none, [], [], m :: _, _ => some (.commit d (p.refuse m.write))
  | none, [], [], [], m :: _ => some (.answer d 0 (p.choice m.q w.server))
  | none, [], [], [], [] => none

variable {p} in
/-- An event the scheduler picks is the device's, and no user action. -/
theorem pick_own {d : D} {w : World sys D} {e : Event sys D} (h : p.pick d w = some e) :
    e.device = d ∧ (∀ a, e ≠ .act d a) ∧ ∀ i c, e ≠ .notify d i c := by
  simp only [pick] at h
  split at h <;> cases h <;> simp [Event.device]

variable [DecidableEq D]

/-- Up to `n` events of device `d`. -/
def drain (d : D) : Nat → World sys D → World sys D
  | 0, w => w
  | n + 1, w =>
      match (p.pick d w).bind (step w) with
      | some w' => drain d n w'
      | none => w

/-- A user action, and everything it sets off in up to `n` events. -/
def perform (d : D) (a : sys.Action) (n : Nat) (w : World sys D) : World sys D :=
  match step w (.act d a) with
  | some w' => p.drain d n w'
  | none => w

variable {p}

theorem run_drain {ok : World sys D → Event sys D → Prop} {d : D}
    (hok : ∀ w e, p.pick d w = some e → ok w e)
    {w₀ : World sys D} : ∀ {n : Nat} {w : World sys D}, Run ok w₀ w → Run ok w₀ (p.drain d n w)
  | 0, _, h => h
  | n + 1, w, h => by
      rw [drain]
      split
      · next w' hw =>
          obtain ⟨e, he, hstep⟩ := Option.bind_eq_some_iff.mp hw
          exact run_drain hok (.step h (hok w e he) hstep)
      · exact h

theorem run_perform {ok : World sys D → Event sys D → Prop} {d : D} {a : sys.Action}
    (hok : ∀ w e, p.pick d w = some e → ok w e) {n : Nat} {w₀ w : World sys D} (hact : ok w (.act d a)) (h : Run ok w₀ w) :
    Run ok w₀ (p.perform d a n w) := by
  rw [perform]
  split
  · next w' hw => exact run_drain hok (.step h hact hw)
  · exact h

/-! ## Conditions on the state -/

variable (p) in
/-- Every event picked meets a test of the world it is picked in. -/
def checked (test : World sys D → Event sys D → Bool) (d : D) : Nat → World sys D → Bool
  | 0, _ => true
  | n + 1, w =>
      match p.pick d w with
      | none => true
      | some e =>
          test w e &&
            match step w e with
            | some w' => checked test d n w'
            | none => true

theorem run_checked {ok : World sys D → Event sys D → Prop} {test : World sys D → Event sys D → Bool}
    (htest : ∀ w e, test w e = true → ok w e) {d : D} {w₀ : World sys D} :
    ∀ {n : Nat} {w : World sys D}, p.checked test d n w = true → Run ok w₀ w →
      Run ok w₀ (p.drain d n w)
  | 0, _, _, h => h
  | n + 1, w, hc, h => by
      rw [checked] at hc
      rw [drain]
      cases he : p.pick d w with
      | none => exact h
      | some e =>
          simp only [he, Bool.and_eq_true] at hc
          cases hstep : step w e with
          | none => simpa [hstep] using h
          | some w' =>
              simp only [hstep] at hc
              simp only [Option.bind_some, hstep]
              exact run_checked htest hc.2 (.step h (htest w e hc.1) hstep)

variable (p) in
/-- A user action and every event it sets off meet a test. -/
def checks (test : World sys D → Event sys D → Bool) (d : D) (a : sys.Action) (n : Nat)
    (w : World sys D) : Bool :=
  test w (.act d a) &&
    match step w (.act d a) with
    | some w' => p.checked test d n w'
    | none => true

theorem run_checks {ok : World sys D → Event sys D → Prop} {test : World sys D → Event sys D → Bool}
    (htest : ∀ w e, test w e = true → ok w e) {d : D} {a : sys.Action} {n : Nat}
    {w₀ w : World sys D} (hc : p.checks test d a n w = true) (h : Run ok w₀ w) :
    Run ok w₀ (p.perform d a n w) := by
  simp only [checks, Bool.and_eq_true] at hc
  rw [perform]
  cases hstep : step w (.act d a) with
  | none => exact h
  | some w' =>
      simp only [hstep] at hc
      exact run_checked htest hc.2 (.step h (htest w _ hc.1) hstep)

end Policy

end Async
