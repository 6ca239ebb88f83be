import DogVillage.Async.Owe
import DogVillage.Async.Reach

/-!
# The last call has the last word

Registers that calls mark: a call is about a key and gives it a value, and
every register of the key is to show it. The writes are carried out some
time later, in any order. As long as no call gives a key another value
while one about it is outstanding, the registers of a key show what the
last call about it gave them, or somebody still owes it.
-/

namespace Async

variable {S : Sig} {sys : System S} {K R V D : Type}

structure Marker (sys : System S) (K R V : Type) where
  reads : sys.Srv → R → V
  puts : S.Write → Option (R × V)
  /-- What a call is about, and the value it gives. -/
  about : sys.Tag → Option (K × V)
  of : R → Option K

namespace Marker

variable (m : Marker sys K R V)

/-- The register is still to be given the value. -/
def debt (r : R) (v : V) : Debt S where
  write wr := m.puts wr = some (r, v)

/-- A write to a register puts what its call gives the key. -/
def Signed (t : sys.Tag) (wr : S.Write) : Prop :=
  ∀ r k v, m.puts wr = some (r, v) → m.of r = some k → m.about t = some (k, v)

variable [DecidableEq K]

/-- The value an entry of the log gives the key. -/
def given (k : K) (x : Entry sys D) : Option V :=
  match x.obs with
  | .acted => (m.about x.tag).bind fun y => if y.1 = k then some y.2 else none
  | _ => none

/-- The value the last call about the key gave it. -/
def last (log : List (Entry sys D)) (k : K) : Option V := log.findSome? (m.given k)

/-- The registers of a key at rest show its last value; while calls about a
key are outstanding they all give it this value, and who does not show it
yet is owed it. -/
structure Kept (init : V) (w : World sys D) : Prop where
  rest : ∀ k, (∀ d t v, w.Active d t → m.about t ≠ some (k, v)) →
    ∀ r, m.of r = some k → m.reads w.server r = (m.last w.log k).getD init
  busy : ∀ k v d t, w.Active d t → m.about t = some (k, v) →
    m.last w.log k = some v ∧ ∀ r, m.of r = some k → m.reads w.server r = v ∨
      ∃ d' t', m.about t' = some (k, v) ∧ (m.debt r v).OwedBy (w.devices d') t'

/-- The step's action owes what it gives, and gives no value against one that
is outstanding; a write puts what its call gives, and is carried out. -/
structure Orderly [DecidableEq D] (w : World sys D) (e : Event sys D) (w' : World sys D) :
    Prop where
  act : ∀ d a k v r, e = .act d a → m.about (sys.ui a (w.devices d).loc).1 = some (k, v) →
    m.of r = some k → (m.debt r v).Owes ((sys.ui a (w.devices d).loc).2.start (w.devices d).loc)
  turn : ∀ d a k v, e = .act d a → m.about (sys.ui a (w.devices d).loc).1 = some (k, v) →
    ∀ d' t v', w.Active d' t → m.about t = some (k, v') → v' = v
  signed : ∀ d, ∀ n ∈ (w.devices d).writes, m.Signed n.tag n.write
  paid : ∀ d fail n ns r v, e = .commit d fail → (w.devices d).writes = n :: ns →
    m.puts n.write = some (r, v) → (m.of r).isSome → m.reads w'.server r = v
  frame : ∀ r, (m.of r).isSome → (∀ d fail n ns v, e = .commit d fail →
    (w.devices d).writes = n :: ns → m.puts n.write ≠ some (r, v)) →
      m.reads w'.server r = m.reads w.server r

variable {m} {w w' : World sys D} {e : Event sys D} {d : D} {k : K} {v init : V} {r : R}

/-! ## The log -/

theorem given_own {x : Entry sys D} (h : x.obs.isOwn = true) : m.given k x = none := by
  obtain ⟨d, t, o⟩ := x
  cases o <;> first | rfl | cases h

theorem last_append {l log : List (Entry sys D)} (h : ∀ x ∈ l, m.given k x = none) :
    m.last (l ++ log) k = m.last log k := by
  rw [last, List.findSome?_append, List.findSome?_eq_none_iff.mpr h, Option.none_or]
  rfl

variable [DecidableEq D]

/-- The action's block is outstanding. -/
theorem begun_of_act {a : sys.Action} (hs : Stepped w (.act d a) w') :
    (⟨(sys.ui a (w.devices d).loc).1,
      (sys.ui a (w.devices d).loc).2.start (w.devices d).loc⟩ : Job sys) ∈ (w'.devices d).jobs := by
  cases hs with
  | act hmain =>
      rw [World.put_device, Device.begin_jobs hmain]
      exact List.mem_cons_self

theorem last_of_act {a : sys.Action} (hs : Stepped w (.act d a) w')
    (ha : m.about (sys.ui a (w.devices d).loc).1 = some (k, v)) : m.last w'.log k = some v := by
  cases hs with
  | act hmain =>
      show List.findSome? (m.given k) (_ :: _) = _
      rw [List.findSome?_cons]
      simp [given, ha]

/-- Only an action about the key gives it another value. -/
theorem last_of_step (hs : Stepped w e w')
    (hact : ∀ d a, e = .act d a → ∀ v, m.about (sys.ui a (w.devices d).loc).1 ≠ some (k, v)) :
    m.last w'.log k = m.last w.log k := by
  cases hs.logs with
  | @acted d a he hlog =>
      rw [hlog]
      refine last_append (l := [_]) fun x hx => ?_
      rw [List.mem_singleton.mp hx]
      cases hk : m.about (sys.ui a (w.devices d).loc).1 with
      | none => simp [given, hk]
      | some y =>
          have hne : y.1 ≠ k := fun h => hact d a he y.2 (by rw [hk, ← h])
          simp [given, hk, hne]
  | answered _ hlog | wrote _ _ hlog =>
      rw [hlog]
      exact last_append (l := [_]) fun x hx => by rw [List.mem_singleton.mp hx]; rfl
  | own hlog hl =>
      rw [hlog]
      exact last_append fun x hx => given_own (hl x hx)

/-! ## One step -/

omit [DecidableEq D] in
theorem Kept.empty (hactive : ∀ d t, ¬w.Active d t) (hlog : w.log = [])
    (hreads : ∀ r, (m.of r).isSome → m.reads w.server r = init) : m.Kept init w where
  rest k _ r hr := by
    rw [hreads r (by rw [hr]; rfl), hlog]
    rfl
  busy _ _ d t ht := absurd ht (hactive d t)

omit [DecidableEq D] in
/-- Calls outstanding about a key give it one value. -/
theorem Kept.unique (h : m.Kept init w) {d d' : D} {t t' : sys.Tag} {v v' : V}
    (ht : w.Active d t) (ht' : w.Active d' t') (hv : m.about t = some (k, v))
    (hv' : m.about t' = some (k, v')) : v' = v := by
  have hlast := (h.busy k v d t ht hv).1
  rw [(h.busy k v' d' t' ht' hv').1] at hlast
  exact Option.some.inj hlast

/-- While a call about the key is outstanding its registers come to show the
value, or are still owed it. -/
theorem Kept.register (h : m.Kept init w) (hok : m.Orderly w e w') (hs : Stepped w e w')
    {t : sys.Tag} (ht : w.Active d t) (hv : m.about t = some (k, v)) (hr : m.of r = some k) :
    m.reads w'.server r = v ∨
      ∃ d' t', m.about t' = some (k, v) ∧ (m.debt r v).OwedBy (w'.devices d') t' := by
  have hsome : (m.of r).isSome := by rw [hr]; rfl
  rcases (h.busy k v d t ht hv).2 r hr with hreads | ⟨d', t', hv', howed⟩
  · refine Or.inl ?_
    by_cases hput : ∃ d fail n ns v, e = .commit d fail ∧ (w.devices d).writes = n :: ns ∧
        m.puts n.write = some (r, v)
    · obtain ⟨d', fail, n, ns, v', he, hw, hputs⟩ := hput
      have hn : n ∈ (w.devices d').writes := by rw [hw]; exact List.mem_cons_self
      have habout := hok.signed d' n hn r k v' hputs hr
      rw [hok.paid d' fail n ns r v' he hw hputs hsome]
      exact h.unique ht (active_of_sent hn) hv habout
    · rw [hok.frame r hsome fun d fail n ns v he hw hputs =>
        hput ⟨d, fail, n, ns, v, he, hw, hputs⟩, hreads]
  · rcases howed.step hs trivial (fun _ _ _ _ _ => trivial) fun _ _ _ _ => trivial with
      howed | hpaid
    · exact Or.inr ⟨d', t', hv', howed⟩
    · cases hpaid with
      | commit hw _ hb => exact Or.inl (hok.paid _ _ _ _ r v rfl hw hb hsome)
      | answer _ _ hb => exact hb.elim

theorem Kept.step (h : m.Kept init w) (hok : m.Orderly w e w') (hs : Stepped w e w') :
    m.Kept init w' where
  rest k hquiet r hr := by
    have hactive : ∀ d a, e = .act d a →
        ∀ v, m.about (sys.ui a (w.devices d).loc).1 ≠ some (k, v) := by
      rintro d a rfl v hv
      exact hquiet d _ v (Device.mem_tags.mpr (Or.inl ⟨_, begun_of_act hs, rfl⟩)) hv
    rw [last_of_step hs hactive]
    by_cases hbusy : ∃ d t v, w.Active d t ∧ m.about t = some (k, v)
    · -- the last call about the key is done
      obtain ⟨d, t, v, ht, hv⟩ := hbusy
      rw [(h.busy k v d t ht hv).1]
      refine (h.register hok hs ht hv hr).resolve_right ?_
      rintro ⟨d', t', hv', howed⟩
      exact hquiet d' t' v howed.mem_tags hv'
    · have hnone : ∀ d t v, w.Active d t → m.about t ≠ some (k, v) :=
        fun d t v ht hv => hbusy ⟨d, t, v, ht, hv⟩
      rw [hok.frame r (by rw [hr]; rfl) fun d fail n ns v he hw hputs => ?_, h.rest k hnone r hr]
      have hn : n ∈ (w.devices d).writes := by rw [hw]; exact List.mem_cons_self
      exact hnone d _ v (active_of_sent hn) (hok.signed d n hn r k v hputs hr)
  busy k v d t ht hv := by
    by_cases hact : ∃ d a v, e = .act d a ∧ m.about (sys.ui a (w.devices d).loc).1 = some (k, v)
    · obtain ⟨d₀, a, v₀, rfl, hv₀⟩ := hact
      have hsame : v = v₀ := by
        rcases active_of_step hs ht with hold | ⟨a', he, rfl⟩
        · exact hok.turn d₀ a k v₀ rfl hv₀ d t v hold hv
        · cases he
          rw [hv₀] at hv
          cases hv
          rfl
      subst hsame
      exact ⟨last_of_act hs hv₀, fun r hr => Or.inr ⟨d₀, _, hv₀, Or.inl
        ⟨_, begun_of_act hs, rfl, hok.act d₀ a k v r rfl hv₀ hr⟩⟩⟩
    · have hactive : ∀ d a, e = .act d a →
          ∀ v, m.about (sys.ui a (w.devices d).loc).1 ≠ some (k, v) :=
        fun d a he v hv => hact ⟨d, a, v, he, hv⟩
      have hold : w.Active d t := by
        rcases active_of_step hs ht with hold | ⟨a, he, rfl⟩
        · exact hold
        · exact absurd hv (hactive d a he v)
      rw [last_of_step hs hactive]
      exact ⟨(h.busy k v d t hold hv).1, fun r hr => h.register hok hs hold hv hr⟩

omit [DecidableEq D] in
/-- Where no debt is left, every register shows the last value of its key. -/
theorem Kept.shown (h : m.Kept init w) (hdone : ∀ d t r v, ¬(m.debt r v).OwedBy (w.devices d) t)
    (hr : m.of r = some k) : m.reads w.server r = (m.last w.log k).getD init := by
  by_cases hbusy : ∃ d t v, w.Active d t ∧ m.about t = some (k, v)
  · obtain ⟨d, t, v, ht, hv⟩ := hbusy
    obtain ⟨hlast, hreg⟩ := h.busy k v d t ht hv
    rw [hlast]
    exact (hreg r hr).resolve_right fun ⟨d', t', _, howed⟩ => hdone d' t' r v howed
  · exact h.rest k (fun d t v ht hv => hbusy ⟨d, t, v, ht, hv⟩) r hr

end Marker

end Async
