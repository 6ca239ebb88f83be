import DogVillage.Async.Guard
import Mathlib.Algebra.Order.Group.Multiset
import Mathlib.Tactic.Abel

/-!
# What can be observed of a piece of code

`Outcome` gives, without any schedule, what may be seen of code by the
time everything it set off has been answered: a recursion over the code
that picks an answer for every call and collects the observations, in no
order. `outcome_of_run` is the adequacy theorem: whatever a run of one
user action on an otherwise idle device has logged when the device is
idle again is an outcome of the action's code. So a property of all
interleavings becomes a case analysis of one term.

Code that reads memory outside the block it starts with is read at any
memory `I` allows; a run in which every logged change keeps `I` provides
that. Notifications of listeners are not followed.
-/

namespace Async

variable {S : Sig}

/-! ## Sums over a list -/

/-- `m` is a sum of multisets, one for each element, each as `P` has it. -/
def Sum {α O : Type} (P : α → Multiset O → Prop) : List α → Multiset O → Prop
  | [], m => m = 0
  | a :: l, m => ∃ m₁ m₂, P a m₁ ∧ Sum P l m₂ ∧ m = m₁ + m₂

namespace Sum

variable {α O : Type} {P : α → Multiset O → Prop}

theorem append {l₁ l₂ : List α} : ∀ {m : Multiset O},
    Sum P (l₁ ++ l₂) m ↔ ∃ m₁ m₂, Sum P l₁ m₁ ∧ Sum P l₂ m₂ ∧ m = m₁ + m₂ := by
  induction l₁ with
  | nil => intro m; simp [Sum]
  | cons a l ih =>
      intro m
      simp only [List.cons_append, Sum, ih]
      constructor
      · rintro ⟨m₁, _, ha, ⟨m₂, m₃, hl, hr, rfl⟩, rfl⟩
        exact ⟨m₁ + m₂, m₃, ⟨m₁, m₂, ha, hl, rfl⟩, hr, by abel⟩
      · rintro ⟨_, m₃, ⟨m₁, m₂, ha, hl, rfl⟩, hr, rfl⟩
        exact ⟨m₁, m₂ + m₃, ha, ⟨m₂, m₃, hl, hr, rfl⟩, by abel⟩

theorem perm {l l' : List α} (h : l.Perm l') : ∀ {m : Multiset O}, Sum P l m → Sum P l' m := by
  induction h with
  | nil => exact fun hm => hm
  | cons a _ ih => rintro m ⟨m₁, m₂, ha, hl, rfl⟩; exact ⟨m₁, m₂, ha, ih hl, rfl⟩
  | swap a b l =>
      rintro m ⟨m₁, _, ha, ⟨m₂, m₃, hb, hl, rfl⟩, rfl⟩
      exact ⟨m₂, m₁ + m₃, hb, ⟨m₁, m₃, ha, hl, rfl⟩, by abel⟩
  | trans _ _ ih₁ ih₂ => exact fun hm => ih₂ (ih₁ hm)

theorem singleton {a : α} {m : Multiset O} : Sum P [a] m ↔ P a m := by
  simp [Sum]

/-- Whatever is in the sum is in one of its summands. -/
theorem mem {x : O} : ∀ {l : List α} {m : Multiset O}, Sum P l m → x ∈ m →
    ∃ a ∈ l, ∃ m', P a m' ∧ x ∈ m'
  | [], _, rfl, hx => by simp at hx
  | a :: l, _, ⟨m₁, m₂, ha, hl, rfl⟩, hx => by
      rcases Multiset.mem_add.mp hx with hx | hx
      · exact ⟨a, List.mem_cons_self, m₁, ha, hx⟩
      · obtain ⟨b, hb, m', hm', hx⟩ := hl.mem hx
        exact ⟨b, List.mem_cons_of_mem _ hb, m', hm', hx⟩

/-- Every element has its summand. -/
theorem le_of_mem {a : α} : ∀ {l : List α} {m : Multiset O}, Sum P l m → a ∈ l →
    ∃ m', P a m' ∧ m' ≤ m
  | b :: l, _, ⟨m₁, m₂, hb, hl, rfl⟩, ha => by
      rcases List.mem_cons.mp ha with rfl | ha
      · exact ⟨m₁, hb, Multiset.le_add_right m₁ m₂⟩
      · obtain ⟨m', hm', hle⟩ := hl.le_of_mem ha
        exact ⟨m', hm', hle.trans (Multiset.le_add_left m₂ m₁)⟩

/-- What tells each summand tells the sum. -/
theorem exists_mem_iff {X : O → Prop} {Q : α → Prop}
    (hP : ∀ a m, P a m → ((∃ x ∈ m, X x) ↔ Q a)) :
    ∀ {l : List α} {m : Multiset O}, Sum P l m → ((∃ x ∈ m, X x) ↔ ∃ a ∈ l, Q a)
  | [], _, rfl => by simp
  | a :: l, _, ⟨m₁, m₂, ha, hl, rfl⟩ => by
      simp only [Multiset.mem_add, or_and_right, exists_or, List.mem_cons, exists_eq_left]
      rw [hP a m₁ ha, exists_mem_iff hP hl]

end Sum

/-! ## Outcomes -/

def Outcome (I : S.Loc → Prop) : Code S → Multiset (Obs S) → Prop
  | .done, m => m = 0
  | .write w h n, m =>
      ∃ r m₁ m₂, Outcome I (h r) m₁ ∧ Outcome I n m₂ ∧ m = {.issued w, .wrote w r} + m₁ + m₂
  | .ask q h n, m =>
      ∃ a m₁ m₂, Outcome I (h a) m₁ ∧ Outcome I n m₂ ∧ m = {.answered q a} + m₁ + m₂
  | .listen _ _ n, m => Outcome I n m
  | .global b n, m => ∃ m₁ m₂, Outcome I b m₁ ∧ Outcome I n m₂ ∧ m = m₁ + m₂
  | .main b n, m => ∃ m₁ m₂, Outcome I b m₁ ∧ Outcome I n m₂ ∧ m = m₁ + m₂
  | .env k, m => ∃ v m₁, Outcome I (k v) m₁ ∧ m = {.supplied v} + m₁
  | .get k, m => ∃ l, I l ∧ Outcome I (k l) m
  | .modify f n, m => ∃ m₁, Outcome I n m₁ ∧ m = {.changed f} + m₁
  | .note x n, m => ∃ m₁, Outcome I n m₁ ∧ m = {.noted x} + m₁

/-- Every change seen keeps `I`. -/
def Kept (I : S.Loc → Prop) (m : Multiset (Obs S)) : Prop :=
  ∀ f, .changed f ∈ m → ∀ l, I l → I (f l)

theorem Kept.add {I : S.Loc → Prop} {m₁ m₂ : Multiset (Obs S)} :
    Kept I (m₁ + m₂) ↔ Kept I m₁ ∧ Kept I m₂ := by
  simp only [Kept, Multiset.mem_add]
  exact ⟨fun h => ⟨fun f hf => h f (Or.inl hf), fun f hf => h f (Or.inr hf)⟩,
    fun h f hf => hf.elim (h.1 f) (h.2 f)⟩

namespace Outcome

variable {I : S.Loc → Prop}

theorem andThen {d : Code S} : ∀ {c : Code S} {m : Multiset (Obs S)},
    Outcome I (c.andThen d) m ↔ ∃ m₁ m₂, Outcome I c m₁ ∧ Outcome I d m₂ ∧ m = m₁ + m₂ := by
  intro c
  induction c with
  | done => intro m; simp [Code.andThen, Outcome]
  | write w h n _ ih =>
      intro m
      simp only [Code.andThen, Outcome, ih]
      constructor
      · rintro ⟨r, m₁, _, hh, ⟨m₂, m₃, hn, hd, rfl⟩, rfl⟩
        exact ⟨_, m₃, ⟨r, m₁, m₂, hh, hn, rfl⟩, hd, by abel⟩
      · rintro ⟨_, m₃, ⟨r, m₁, m₂, hh, hn, rfl⟩, hd, rfl⟩
        exact ⟨r, m₁, m₂ + m₃, hh, ⟨m₂, m₃, hn, hd, rfl⟩, by abel⟩
  | ask q h n _ ih =>
      intro m
      simp only [Code.andThen, Outcome, ih]
      constructor
      · rintro ⟨a, m₁, _, hh, ⟨m₂, m₃, hn, hd, rfl⟩, rfl⟩
        exact ⟨_, m₃, ⟨a, m₁, m₂, hh, hn, rfl⟩, hd, by abel⟩
      · rintro ⟨_, m₃, ⟨a, m₁, m₂, hh, hn, rfl⟩, hd, rfl⟩
        exact ⟨a, m₁, m₂ + m₃, hh, ⟨m₂, m₃, hn, hd, rfl⟩, by abel⟩
  | listen q h n _ ih => intro m; simp only [Code.andThen, Outcome, ih]
  | global b n _ ih =>
      intro m
      simp only [Code.andThen, Outcome, ih]
      constructor
      · rintro ⟨m₁, _, hb, ⟨m₂, m₃, hn, hd, rfl⟩, rfl⟩
        exact ⟨_, m₃, ⟨m₁, m₂, hb, hn, rfl⟩, hd, by abel⟩
      · rintro ⟨_, m₃, ⟨m₁, m₂, hb, hn, rfl⟩, hd, rfl⟩
        exact ⟨m₁, m₂ + m₃, hb, ⟨m₂, m₃, hn, hd, rfl⟩, by abel⟩
  | main b n _ ih =>
      intro m
      simp only [Code.andThen, Outcome, ih]
      constructor
      · rintro ⟨m₁, _, hb, ⟨m₂, m₃, hn, hd, rfl⟩, rfl⟩
        exact ⟨_, m₃, ⟨m₁, m₂, hb, hn, rfl⟩, hd, by abel⟩
      · rintro ⟨_, m₃, ⟨m₁, m₂, hb, hn, rfl⟩, hd, rfl⟩
        exact ⟨m₁, m₂ + m₃, hb, ⟨m₂, m₃, hn, hd, rfl⟩, by abel⟩
  | env k ih =>
      intro m
      simp only [Code.andThen, Outcome, ih]
      constructor
      · rintro ⟨v, _, ⟨m₁, m₂, hk, hd, rfl⟩, rfl⟩
        exact ⟨_, m₂, ⟨v, m₁, hk, rfl⟩, hd, by abel⟩
      · rintro ⟨_, m₂, ⟨v, m₁, hk, rfl⟩, hd, rfl⟩
        exact ⟨v, m₁ + m₂, ⟨m₁, m₂, hk, hd, rfl⟩, by abel⟩
  | get k ih =>
      intro m
      simp only [Code.andThen, Outcome, ih]
      constructor
      · rintro ⟨l, hl, m₁, m₂, hk, hd, rfl⟩; exact ⟨m₁, m₂, ⟨l, hl, hk⟩, hd, rfl⟩
      · rintro ⟨m₁, m₂, ⟨l, hl, hk⟩, hd, rfl⟩; exact ⟨l, hl, m₁, m₂, hk, hd, rfl⟩
  | modify f n ih =>
      intro m
      simp only [Code.andThen, Outcome, ih]
      constructor
      · rintro ⟨_, ⟨m₁, m₂, hn, hd, rfl⟩, rfl⟩
        exact ⟨_, m₂, ⟨m₁, hn, rfl⟩, hd, by abel⟩
      · rintro ⟨_, m₂, ⟨m₁, hn, rfl⟩, hd, rfl⟩
        exact ⟨m₁ + m₂, ⟨m₁, m₂, hn, hd, rfl⟩, by abel⟩
  | note x n ih =>
      intro m
      simp only [Code.andThen, Outcome, ih]
      constructor
      · rintro ⟨_, ⟨m₁, m₂, hn, hd, rfl⟩, rfl⟩
        exact ⟨_, m₂, ⟨m₁, hn, rfl⟩, hd, by abel⟩
      · rintro ⟨_, m₂, ⟨m₁, hn, rfl⟩, hd, rfl⟩
        exact ⟨m₁ + m₂, ⟨m₁, m₂, hn, hd, rfl⟩, by abel⟩

theorem forEach {α : Type} {f : α → Code S} : ∀ {l : List α} {m : Multiset (Obs S)},
    Outcome I (Code.forEach l f) m ↔ Sum (fun a => Outcome I (f a)) l m
  | [], _ => Iff.rfl
  | a :: l, m => by
      simp only [Code.forEach, andThen, forEach, Sum]

/-- What the block reads when it starts is one of the memories allowed. -/
theorem of_start : ∀ {c : Code S} {l : S.Loc} {m : Multiset (Obs S)},
    Outcome I (c.start l) m → I l → Kept I m → Outcome I c m
  | .done, _, _, h, _, _ => h
  | .write .., _, _, ⟨r, m₁, m₂, hh, hn, hm⟩, hl, hk =>
      ⟨r, m₁, m₂, hh, hn.of_start hl (Kept.add.mp (hm ▸ hk)).2, hm⟩
  | .ask .., _, _, ⟨a, m₁, m₂, hh, hn, hm⟩, hl, hk =>
      ⟨a, m₁, m₂, hh, hn.of_start hl (Kept.add.mp (hm ▸ hk)).2, hm⟩
  | .listen _ _ n, _, _, h, hl, hk => of_start (c := n) h hl hk
  | .global .., _, _, ⟨m₁, m₂, hb, hn, hm⟩, hl, hk =>
      ⟨m₁, m₂, hb, hn.of_start hl (Kept.add.mp (hm ▸ hk)).2, hm⟩
  | .main .., _, _, ⟨m₁, m₂, hb, hn, hm⟩, hl, hk =>
      ⟨m₁, m₂, hb, hn.of_start hl (Kept.add.mp (hm ▸ hk)).2, hm⟩
  | .env _, _, _, ⟨v, m₁, hv, hm⟩, hl, hk =>
      ⟨v, m₁, hv.of_start hl (Kept.add.mp (hm ▸ hk)).2, hm⟩
  | .get k, l, _, h, hl, hk => ⟨l, hl, of_start (c := k l) h hl hk⟩
  | .modify f _, _, _, ⟨m₁, hn, hm⟩, hl, hk =>
      ⟨m₁, hn.of_start (hk f (by simp [hm]) _ hl) (Kept.add.mp (hm ▸ hk)).2, hm⟩
  | .note .., _, _, ⟨m₁, hn, hm⟩, hl, hk =>
      ⟨m₁, hn.of_start hl (Kept.add.mp (hm ▸ hk)).2, hm⟩

end Outcome

/-! ## What is still to be seen of a device -/

variable {sys : System S} {D : Type}

/-- What may still be seen of everything outstanding on the device. -/
def Future (I : S.Loc → Prop) (dev : Device sys) (m : Multiset (Obs S)) : Prop :=
  ∃ m₁ m₂ m₃,
    Sum (fun j : Job sys => Outcome I j.code) dev.jobs m₁ ∧
    Sum (fun (x : Sent sys) m => ∃ r m', Outcome I (x.handler r) m' ∧ m = {.wrote x.write r} + m')
      dev.writes m₂ ∧
    Sum (fun (x : Asked sys) m => ∃ a m', Outcome I (x.handler a) m' ∧ m = {.answered x.q a} + m')
      dev.asks m₃ ∧
    m = m₁ + m₂ + m₃

namespace Future

variable {I : S.Loc → Prop} {dev : Device sys}

theorem of_idle (h : dev.idle = true) : Future I dev 0 := by
  obtain ⟨hj, hw, ha⟩ := Device.idle_iff.mp h
  exact ⟨0, 0, 0, by rw [hj]; rfl, by rw [hw]; rfl, by rw [ha]; rfl, by simp⟩

theorem eq_zero (h : dev.idle = true) {m : Multiset (Obs S)} (hm : Future I dev m) : m = 0 := by
  obtain ⟨hj, hw, ha⟩ := Device.idle_iff.mp h
  obtain ⟨m₁, m₂, m₃, h₁, h₂, h₃, rfl⟩ := hm
  rw [hj] at h₁; rw [hw] at h₂; rw [ha] at h₃
  simp only [Sum] at h₁ h₂ h₃
  simp [h₁, h₂, h₃]

/-- A block more, and its share of what is to be seen. -/
theorem add_job {dev' : Device sys} {j : Job sys} (hj : dev'.jobs.Perm (j :: dev.jobs))
    (hw : dev'.writes = dev.writes) (ha : dev'.asks = dev.asks) {m : Multiset (Obs S)} :
    Future I dev' m ↔ ∃ m₁ m₂, Outcome I j.code m₁ ∧ Future I dev m₂ ∧ m = m₁ + m₂ := by
  simp only [Future, hw, ha]
  constructor
  · rintro ⟨m₁, m₂, m₃, h₁, h₂, h₃, rfl⟩
    obtain ⟨m₄, m₅, h₄, h₅, rfl⟩ := h₁.perm hj
    exact ⟨m₄, m₅ + m₂ + m₃, h₄, ⟨m₅, m₂, m₃, h₅, h₂, h₃, rfl⟩, by abel⟩
  · rintro ⟨m₄, _, h₄, ⟨m₅, m₂, m₃, h₅, h₂, h₃, rfl⟩, rfl⟩
    exact ⟨m₄ + m₅, m₂, m₃, Sum.perm hj.symm ⟨m₄, m₅, h₄, h₅, rfl⟩, h₂, h₃, by abel⟩

theorem begin {j : Job sys} (hmain : dev.main = none) {m : Multiset (Obs S)} :
    Future I (dev.begin j) m ↔
      ∃ m₁ m₂, Outcome I (j.code.start dev.loc) m₁ ∧ Future I dev m₂ ∧ m = m₁ + m₂ :=
  add_job (List.Perm.of_eq (Device.begin_jobs hmain)) rfl rfl

theorem arrive {j : Job sys} {m : Multiset (Obs S)} :
    Future I (dev.arrive j) m ↔
      ∃ m₁ m₂, Outcome I j.code m₁ ∧ Future I dev m₂ ∧ m = m₁ + m₂ :=
  add_job Device.arrive_jobs rfl rfl

/-- Before a statement runs, what it does and what it leaves are to come. -/
theorem exec {t : sys.Tag} {v : S.Env} {srv : sys.Srv} {c : Code S} {r : Turn sys}
    {m₁ m₂ : Multiset (Obs S)} (h : exec t v srv dev c = some r) (hl : I dev.loc)
    (h₁ : Outcome I r.code m₁) (h₂ : Future I r.device m₂) :
    ∃ m₁' m₂', Outcome I c m₁' ∧ Future I dev m₂' ∧ m₁' + m₂' = r.obs + m₁ + m₂ := by
  cases c with
  | done => cases h
  | write w hd n =>
      cases h
      obtain ⟨a, b, c, ha, hb, hc, rfl⟩ := h₂
      obtain ⟨b₁, b₂, hb₁, hb₂, rfl⟩ := Sum.append.mp hb
      obtain ⟨res, b₃, hb₃, rfl⟩ := Sum.singleton.mp hb₂
      exact ⟨{.issued w, .wrote w res} + b₃ + m₁, a + b₁ + c, ⟨res, b₃, m₁, hb₃, h₁, rfl⟩,
        ⟨a, b₁, c, ha, hb₁, hc, rfl⟩, by
          simp only [Multiset.insert_eq_cons, ← Multiset.singleton_add, Multiset.coe_singleton]
          abel⟩
  | ask q hd n =>
      cases h
      obtain ⟨a, b, c, ha, hb, hc, rfl⟩ := h₂
      obtain ⟨c₁, c₂, hc₁, hc₂, rfl⟩ := Sum.append.mp hc
      obtain ⟨res, c₃, hc₃, rfl⟩ := Sum.singleton.mp hc₂
      exact ⟨{.answered q res} + c₃ + m₁, a + b + c₁, ⟨res, c₃, m₁, hc₃, h₁, rfl⟩,
        ⟨a, b, c₁, ha, hb, hc₁, rfl⟩, by simp only [Multiset.coe_nil]; abel⟩
  | listen q hd n => cases h; exact ⟨m₁, m₂, h₁, h₂, by simp⟩
  | global b n =>
      cases h
      have hp : Device.jobs { dev with pool := dev.pool ++ [⟨t, b⟩] } |>.Perm
          (⟨t, b⟩ :: dev.jobs) := by
        simp only [Device.jobs, ← List.append_assoc]
        exact List.perm_append_singleton _ _
      obtain ⟨m₃, m₄, h₃, h₄, rfl⟩ := (add_job hp rfl rfl).mp h₂
      exact ⟨m₃ + m₁, m₄, ⟨m₃, m₁, h₃, h₁, rfl⟩, h₄, by simp only [Multiset.coe_nil]; abel⟩
  | main b n =>
      cases h
      have hp : Device.jobs { dev with inbox := dev.inbox ++ [⟨t, b⟩] } |>.Perm
          (⟨t, b⟩ :: dev.jobs) := by
        simp only [Device.jobs, ← List.append_assoc]
        rw [List.append_assoc, List.singleton_append]
        exact List.perm_middle
      obtain ⟨m₃, m₄, h₃, h₄, rfl⟩ := (add_job hp rfl rfl).mp h₂
      exact ⟨m₃ + m₁, m₄, ⟨m₃, m₁, h₃, h₁, rfl⟩, h₄, by simp only [Multiset.coe_nil]; abel⟩
  | env k =>
      obtain ⟨_, -, rfl⟩ := Option.map_eq_some_iff.mp h
      exact ⟨{.supplied v} + m₁, m₂, ⟨v, m₁, h₁, rfl⟩, h₂, by
        simp only [Multiset.coe_singleton]⟩
  | get k => cases h; exact ⟨m₁, m₂, ⟨_, hl, h₁⟩, h₂, by simp⟩
  | modify f n =>
      cases h
      exact ⟨{.changed f} + m₁, m₂, ⟨m₁, h₁, rfl⟩, h₂, by simp only [Multiset.coe_singleton]⟩
  | note x n =>
      cases h
      exact ⟨{.noted x} + m₁, m₂, ⟨m₁, h₁, rfl⟩, h₂, by simp only [Multiset.coe_singleton]⟩

end Future

section

variable [DecidableEq D]

/-- What was seen of the device so far. -/
def World.seen (w : World sys D) (d : D) : Multiset (Obs S) :=
  ((w.log.filter (·.device = d)).map (·.obs) : List (Obs S))

namespace World

variable {w : World sys D} {d d' : D} {srv : sys.Srv} {dev : Device sys} {t : sys.Tag}
  {obs : List (Obs S)}

theorem seen_put : (w.put d srv dev t obs).seen d = w.seen d + obs := by
  simp only [seen, put, List.filter_append, List.map_append, ← Multiset.coe_add]
  rw [add_comm]
  congr 2
  simp [List.filter_map, Function.comp_def]

/-- What was seen since `w₀`, read off the newer part of the log. -/
theorem seen_of_log {w₀ : World sys D} {l : List (Entry sys D)} (h : w.log = l ++ w₀.log) :
    w.seen d = w₀.seen d + ((l.filter (·.device = d)).map (·.obs) : List (Obs S)) := by
  simp only [seen, h, List.filter_append, List.map_append, ← Multiset.coe_add]
  exact add_comm _ _

theorem seen_put_ne (h : d' ≠ d) : (w.put d' srv dev t obs).seen d = w.seen d := by
  simp [seen, put, List.filter_append, List.filter_map, Function.comp_def, h]

end World

/-! ## Memory and what was seen -/

/-- The changes among what was seen. -/
def changes (o : Multiset (Obs S)) : Multiset (S.Loc → S.Loc) :=
  o.filterMap fun
    | .changed f => some f
    | _ => none

section

variable {o o' : Multiset (Obs S)}

@[simp] theorem changes_zero : changes (0 : Multiset (Obs S)) = 0 := rfl

@[simp] theorem changes_add : changes (o + o') = changes o + changes o' :=
  Multiset.filterMap_add _ _ _

@[simp] theorem changes_cons (x : Obs S) :
    changes (x ::ₘ o) = changes {x} + changes o := by
  rw [← Multiset.singleton_add, changes_add]

@[simp] theorem changes_changed (f : S.Loc → S.Loc) :
    changes ({.changed f} : Multiset (Obs S)) = {f} := rfl
@[simp] theorem changes_acted : changes ({.acted} : Multiset (Obs S)) = 0 := rfl
@[simp] theorem changes_issued (w : S.Write) :
    changes ({.issued w} : Multiset (Obs S)) = 0 := rfl
@[simp] theorem changes_wrote (w : S.Write) (r : Option S.Err) :
    changes ({.wrote w r} : Multiset (Obs S)) = 0 := rfl
@[simp] theorem changes_answered (q : S.Ask) (a : S.Ans q) :
    changes ({.answered q a} : Multiset (Obs S)) = 0 := rfl
@[simp] theorem changes_supplied (v : S.Env) :
    changes ({.supplied v} : Multiset (Obs S)) = 0 := rfl
@[simp] theorem changes_noted (n : S.Note) :
    changes ({.noted n} : Multiset (Obs S)) = 0 := rfl

theorem mem_changes {f : S.Loc → S.Loc} : f ∈ changes o ↔ .changed f ∈ o := by
  rw [changes, Multiset.mem_filterMap]
  constructor
  · rintro ⟨x, hx, hf⟩
    cases x with
    | changed g => cases hf; exact hx
    | _ => cases hf
  · exact fun h => ⟨_, h, rfl⟩

end

/-- Code that leaves the memory alone. -/
def Code.Still : Code S → Prop
  | .done => True
  | .write _ h n => (∀ r, Still (h r)) ∧ Still n
  | .ask _ h n => (∀ a, Still (h a)) ∧ Still n
  | .listen _ _ n => Still n
  | .global b n => Still b ∧ Still n
  | .main b n => Still b ∧ Still n
  | .env k => ∀ v, Still (k v)
  | .get k => ∀ l, Still (k l)
  | .modify _ _ => False
  | .note _ n => Still n

theorem Code.Still.get {k : S.Loc → Code S} (h : ∀ l, (k l).Still) : (Code.get k).Still := h

theorem Code.Still.andThen {d : Code S} (hd : d.Still) : ∀ {c : Code S}, c.Still →
    (c.andThen d).Still
  | .done, _ => hd
  | .write .., hc => ⟨hc.1, hd.andThen hc.2⟩
  | .ask .., hc => ⟨hc.1, hd.andThen hc.2⟩
  | .listen _ _ n, hc => hd.andThen (c := n) hc
  | .global .., hc => ⟨hc.1, hd.andThen hc.2⟩
  | .main .., hc => ⟨hc.1, hd.andThen hc.2⟩
  | .env _, hc => fun v => hd.andThen (hc v)
  | .get _, hc => fun l => hd.andThen (hc l)
  | .modify .., hc => hc.elim
  | .note _ n, hc => hd.andThen (c := n) hc

theorem Code.Still.forEach {α : Type} {f : α → Code S} (h : ∀ a, (f a).Still) :
    ∀ {l : List α}, (Code.forEach l f).Still
  | [] => trivial
  | a :: _ => (Code.Still.forEach h).andThen (h a)

theorem Outcome.still {I : S.Loc → Prop} : ∀ {c : Code S} {m : Multiset (Obs S)},
    c.Still → Outcome I c m → changes m = 0
  | .done, _, _, rfl => rfl
  | .write .., _, hc, ⟨r, _, _, hh, hn, hm⟩ => by
      simp [hm, (hh.still (hc.1 r)), hn.still hc.2]
  | .ask .., _, hc, ⟨a, _, _, hh, hn, hm⟩ => by
      simp [hm, (hh.still (hc.1 a)), hn.still hc.2]
  | .listen _ _ n, _, hc, h => Outcome.still (c := n) hc h
  | .global .., _, hc, ⟨_, _, hb, hn, hm⟩ => by simp [hm, hb.still hc.1, hn.still hc.2]
  | .main .., _, hc, ⟨_, _, hb, hn, hm⟩ => by simp [hm, hb.still hc.1, hn.still hc.2]
  | .env _, _, hc, ⟨v, _, hk, hm⟩ => by simp [hm, hk.still (hc v)]
  | .get _, _, hc, ⟨l, _, hk⟩ => hk.still (hc l)
  | .modify .., _, hc, _ => hc.elim
  | .note _ n, _, hc, ⟨_, hn, hm⟩ => by
      simp [hm, Outcome.still (c := n) hc hn]

/-- A step changes the memory by the change it shows, if any. -/
theorem loc_of_step {w w' : World sys D} {e : Event sys D} (hs : Stepped w e w') (d : D) :
    ∃ o, w'.seen d = w.seen d + o ∧
      (changes o = 0 ∧ (w'.devices d).loc = (w.devices d).loc ∨
        ∃ f, changes o = {f} ∧ (w'.devices d).loc = f (w.devices d).loc) := by
  have key : ∀ {d' : D} {srv : sys.Srv} {dev : Device sys} {t : sys.Tag} {obs : List (Obs S)},
      w' = w.put d' srv dev t obs →
      (changes (obs : Multiset (Obs S)) = 0 ∧ dev.loc = (w.devices d').loc ∨
        ∃ f, changes (obs : Multiset (Obs S)) = {f} ∧ dev.loc = f (w.devices d').loc) →
      ∃ o, w'.seen d = w.seen d + o ∧
        (changes o = 0 ∧ (w'.devices d).loc = (w.devices d).loc ∨
          ∃ f, changes o = {f} ∧ (w'.devices d).loc = f (w.devices d).loc) := by
    intro d' srv dev t obs hw h
    by_cases hd : d' = d
    · subst hd
      exact ⟨obs, by rw [hw, World.seen_put], by rw [hw, World.put_device]; exact h⟩
    · exact ⟨0, by rw [hw, World.seen_put_ne hd, add_zero],
        Or.inl ⟨rfl, by rw [hw, World.put_device_ne w (Ne.symm hd)]⟩⟩
  cases hs with
  | finish htake => exact key rfl (Or.inl ⟨rfl, Device.take_loc htake⟩)
  | @run d' s v t c dev r htake hexec =>
      refine key rfl ?_
      rw [Device.back_loc, ← Device.take_loc htake]
      cases c with
      | done => cases hexec
      | modify f n => cases hexec; exact Or.inr ⟨f, rfl, rfl⟩
      | env k =>
          obtain ⟨_, -, rfl⟩ := Option.map_eq_some_iff.mp hexec
          exact Or.inl ⟨rfl, rfl⟩
      | _ => cases hexec; exact Or.inl ⟨rfl, rfl⟩
  | _ => exact key rfl (Or.inl ⟨rfl, rfl⟩)

/-- The memory after a run: the changes it showed, one after the other. -/
theorem loc_of_run {ok : World sys D → Event sys D → Prop} {w₁ w : World sys D}
    (hrun : Run ok w₁ w) (d : D) :
    ∃ o, ∃ fs : List (S.Loc → S.Loc),
      w.seen d = w₁.seen d + o ∧ (fs : Multiset (S.Loc → S.Loc)) = changes o ∧
      (w.devices d).loc = fs.foldr (fun f l => f l) (w₁.devices d).loc := by
  induction hrun with
  | refl => exact ⟨0, [], by simp, rfl, rfl⟩
  | step _ _ hstep ih =>
      obtain ⟨o, fs, ho, hfs, hl⟩ := ih
      obtain ⟨o', ho', hl'⟩ := loc_of_step (stepped_of_step hstep) d
      rcases hl' with ⟨hc, hl'⟩ | ⟨f, hc, hl'⟩
      · exact ⟨o + o', fs, by rw [ho', ho]; abel, by simp [hfs, hc], by rw [hl', hl]⟩
      · refine ⟨o + o', f :: fs, by rw [ho', ho]; abel, ?_, by rw [hl', hl]; rfl⟩
        rw [changes_add, hc, ← hfs, add_comm]
        rfl

/-- The events that add nothing from outside to what device `d` is doing. -/
def Event.Own (d : D) (e : Event sys D) : Prop :=
  (∀ a, e ≠ .act d a) ∧ ∀ i c, e ≠ .notify d i c

def Event.isOwn (d : D) : Event sys D → Bool
  | .act d' _ => d' ≠ d
  | .notify d' _ _ => d' ≠ d
  | _ => true

theorem Event.own_of_isOwn {d : D} {e : Event sys D} (h : e.isOwn d = true) : e.Own d := by
  constructor
  · rintro a rfl; simp [isOwn] at h
  · rintro i c rfl; simp [isOwn] at h

/-- One step, read backwards: what it showed and what may be seen after it
could be foreseen. -/
theorem Future.step {I : S.Loc → Prop} {w w' : World sys D} {e : Event sys D} {d : D}
    (hs : Stepped w e w') (hown : e.Own d) (hl : I (w.devices d).loc) :
    ∃ o, w'.seen d = w.seen d + o ∧ (Kept I o → I (w'.devices d).loc) ∧
      ∀ m, Kept I m → Future I (w'.devices d) m → Future I (w.devices d) (o + m) := by
  -- on another device nothing is seen
  have other : ∀ {d' : D} {srv : sys.Srv} {dev : Device sys} {t : sys.Tag}
      {obs : List (Obs S)}, w' = w.put d' srv dev t obs → d' ≠ d →
      ∃ o, w'.seen d = w.seen d + o ∧ (Kept I o → I (w'.devices d).loc) ∧
        ∀ m, Kept I m → Future I (w'.devices d) m → Future I (w.devices d) (o + m) := by
    intro d' srv dev t obs hw hd
    refine ⟨0, by rw [hw, World.seen_put_ne hd, add_zero], ?_⟩
    rw [hw, World.put_device_ne w (Ne.symm hd)]
    exact ⟨fun _ => hl, fun m _ hm => by rwa [zero_add]⟩
  cases hs with
  | @act d' a hmain =>
      by_cases hd : d' = d
      · subst hd; exact absurd rfl (hown.1 a)
      · exact other rfl hd
  | @next d' j js hmain hin =>
      by_cases hd : d' = d
      · subst hd
        refine ⟨0, by simp [World.seen_put], ?_⟩
        rw [World.put_device]
        refine ⟨fun _ => hl, fun m hk hm => ?_⟩
        obtain ⟨m₁, m₂, h₁, h₂, rfl⟩ := (Future.begin (by exact hmain)).mp hm
        rw [zero_add]
        exact (add_job (List.Perm.of_eq (Device.next_jobs hmain hin)) rfl rfl).mpr
          ⟨m₁, m₂, h₁.of_start hl (Kept.add.mp hk).1, h₂, rfl⟩
      · exact other rfl hd
  | @finish d' s v t dev htake =>
      by_cases hd : d' = d
      · subst hd
        refine ⟨0, by simp [World.seen_put], ?_⟩
        rw [World.put_device, Device.take_loc htake]
        refine ⟨fun _ => hl, fun m _ hm => ?_⟩
        rw [zero_add]
        exact (add_job (Device.take_jobs htake) (Device.take_writes htake).symm
          (Device.take_asks htake).symm).mpr ⟨0, m, rfl, hm, by simp⟩
      · exact other rfl hd
  | @run d' s v t c dev r htake hexec =>
      by_cases hd : d' = d
      · subst hd
        refine ⟨r.obs, World.seen_put, ?_⟩
        rw [World.put_device, Device.back_loc]
        have hfree : s = .main → r.device.main = none := fun h => by
          rw [exec_main hexec]; exact Device.take_free htake h
        have hloc : I dev.loc := by rwa [Device.take_loc htake]
        refine ⟨fun hk => ?_, fun m _ hm => ?_⟩
        · cases c with
          | done => cases hexec
          | modify f n => cases hexec; exact hk f (by simp) _ hloc
          | env k =>
              obtain ⟨_, -, rfl⟩ := Option.map_eq_some_iff.mp hexec
              exact hloc
          | _ => cases hexec; exact hloc
        · obtain ⟨m₁, m₂, h₁, h₂, rfl⟩ := (add_job (Device.back_jobs hfree)
            Device.back_writes Device.back_asks).mp hm
          obtain ⟨m₃, m₄, h₃, h₄, he⟩ := Future.exec hexec hloc h₁ h₂
          exact (add_job (Device.take_jobs htake) (Device.take_writes htake).symm
            (Device.take_asks htake).symm).mpr ⟨m₃, m₄, h₃, h₄, by rw [he]; abel⟩
      · exact other rfl hd
  | @commit d' fail x xs hw =>
      by_cases hd : d' = d
      · subst hd
        refine ⟨_, World.seen_put, ?_⟩
        rw [World.put_device]
        refine ⟨fun _ => hl, fun m _ hm => ?_⟩
        obtain ⟨m₁, m₂, h₁, ⟨m₃, m₄, m₅, h₃, h₄, h₅, rfl⟩, rfl⟩ := Future.arrive.mp hm
        exact ⟨m₃, _, m₅, h₃, by rw [hw]; exact ⟨_, m₄, ⟨_, m₁, h₁, rfl⟩, h₄, rfl⟩, h₅, by
          simp only [Multiset.coe_singleton]; abel⟩
      · exact other rfl hd
  | @answer d' i c x a srv hi hs =>
      by_cases hd : d' = d
      · subst hd
        refine ⟨_, World.seen_put, ?_⟩
        rw [World.put_device]
        refine ⟨fun _ => hl, fun m _ hm => ?_⟩
        obtain ⟨hlt, rfl⟩ := List.getElem?_eq_some_iff.mp hi
        obtain ⟨m₁, m₂, h₁, ⟨m₃, m₄, m₅, h₃, h₄, h₅, rfl⟩, rfl⟩ := Future.arrive.mp hm
        have hp := List.getElem_cons_eraseIdx_perm hlt
        exact ⟨m₃, m₄, _, h₃, h₄, Sum.perm hp ⟨_, m₅, ⟨_, m₁, h₁, rfl⟩, h₅, rfl⟩, by
          simp only [Multiset.coe_singleton]; abel⟩
      · exact other rfl hd
  | @notify d' i c x a srv hi hs =>
      by_cases hd : d' = d
      · subst hd; exact absurd rfl (hown.2 i c)
      · exact other rfl hd

/-- The same for a whole run. -/
theorem Future.run {I : S.Loc → Prop} {ok : World sys D → Event sys D → Prop} {d : D}
    (hok : ∀ w e, ok w e → e.Own d) {w₁ w : World sys D} (hrun : Run ok w₁ w)
    (hl : I (w₁.devices d).loc) :
    ∃ o, w.seen d = w₁.seen d + o ∧ (Kept I o → I (w.devices d).loc ∧
      ∀ m, Kept I m → Future I (w.devices d) m → Future I (w₁.devices d) (o + m)) := by
  induction hrun with
  | refl => exact ⟨0, by simp, fun _ => ⟨hl, fun m _ hm => by rwa [zero_add]⟩⟩
  | @step w w' e _ he hstep ih =>
      obtain ⟨o, ho, hback⟩ := ih
      have hs := stepped_of_step hstep
      by_cases hk : Kept I o
      · obtain ⟨hloc, hfut⟩ := hback hk
        obtain ⟨o', ho', hloc', hfut'⟩ := Future.step hs (hok _ _ he) hloc
        refine ⟨o + o', by rw [ho', ho]; abel, fun hk' => ⟨hloc' (Kept.add.mp hk').2,
          fun m hm hf => ?_⟩⟩
        rw [add_assoc]
        exact hfut _ (Kept.add.mpr ⟨(Kept.add.mp hk').2, hm⟩) (hfut' m hm hf)
      · obtain ⟨o', ho', -⟩ := Future.step (I := fun _ => True) hs (hok _ _ he) trivial
        exact ⟨o + o', by rw [ho', ho]; abel, fun hk' => absurd (Kept.add.mp hk').1 hk⟩

/-- A user action on an idle device, run until the device is idle again,
shows an outcome of its code. -/
theorem outcome_of_run (I : S.Loc → Prop) {ok : World sys D → Event sys D → Prop} {d : D}
    (hok : ∀ w e, ok w e → e.Own d) {a : sys.Action} {w₀ w₁ w : World sys D}
    (hidle : (w₀.devices d).idle = true) (hact : step w₀ (.act d a) = some w₁)
    (hrun : Run ok w₁ w) (hdone : (w.devices d).idle = true) (hl : I (w₀.devices d).loc) :
    ∃ o, w.seen d = w₀.seen d + {.acted} + o ∧ (Kept I o → I (w.devices d).loc ∧
      Outcome I ((sys.ui a (w₀.devices d).loc).2.start (w₀.devices d).loc) o) := by
  cases stepped_of_step hact with
  | act hmain =>
      obtain ⟨o, ho, hback⟩ := Future.run (I := I) hok hrun (by rw [World.put_device]; exact hl)
      refine ⟨o, by rw [ho, World.seen_put]; rfl, fun hk => ?_⟩
      obtain ⟨hloc, hfut⟩ := hback hk
      refine ⟨hloc, ?_⟩
      have h := hfut 0 (fun f hf => by simp at hf) (Future.of_idle hdone)
      rw [add_zero, World.put_device] at h
      obtain ⟨m₁, m₂, h₁, h₂, rfl⟩ := (Future.begin hmain).mp h
      rw [Future.eq_zero hidle h₂, add_zero]
      exact h₁

end

end Async
