import DogVillage.Async.Guard

/-!
# What outstanding code still owes

The liveness side of client code, without fairness: code `Owes` a write
(or a call) if on every path it can still take it comes to issue it. A
debt survives every step until the write is settled, so a world with
nothing outstanding has no debts left: what was owed has been done.

The paths a debt quantifies over can be narrowed to the answers a run
gives (`ans`, `res`) and to the memory it keeps (`loc`).
-/

namespace Async

variable {S : Sig}

structure Debt (S : Sig) where
  write : S.Write → Prop
  ask : S.Ask → Prop := fun _ => False
  res : Option S.Err → Prop := fun _ => True
  ans : (q : S.Ask) → S.Ans q → Prop := fun _ _ => True
  loc : S.Loc → Prop := fun _ => True

variable {sys : System S} {D : Type}

namespace Debt

variable (b : Debt S)

def Owes : Code S → Prop
  | .done => False
  | .write w h n => b.write w ∨ (∀ r, b.res r → Owes (h r)) ∨ Owes n
  | .ask q h n => b.ask q ∨ (∀ a, b.ans q a → Owes (h a)) ∨ Owes n
  | .listen _ _ n => Owes n
  | .global c n => Owes c ∨ Owes n
  | .main c n => Owes c ∨ Owes n
  | .env k => ∀ v, Owes (k v)
  | .get k => ∀ l, b.loc l → Owes (k l)
  | .modify f n => (∀ l, b.loc l → b.loc (f l)) ∧ Owes n
  | .note _ n => Owes n

variable {b}

theorem Owes.start : ∀ {c : Code S} {l : S.Loc}, b.Owes c → b.loc l → b.Owes (c.start l)
  | .done, _, h, _ => h
  | .write .., _, h, hl => h.imp_right (·.imp_right (·.start hl))
  | .ask .., _, h, hl => h.imp_right (·.imp_right (·.start hl))
  | .listen _ _ n, _, h, hl => Owes.start (c := n) h hl
  | .global .., _, h, hl => h.imp_right (·.start hl)
  | .main .., _, h, hl => h.imp_right (·.start hl)
  | .env _, _, h, hl => fun v => (h v).start hl
  | .get _, l, h, hl => (h l hl).start hl
  | .modify .., l, h, hl => ⟨h.1, h.2.start (h.1 l hl)⟩
  | .note _ n, _, h, hl => Owes.start (c := n) h hl

theorem Owes.andThen_left {d : Code S} : ∀ {c : Code S}, b.Owes c → b.Owes (c.andThen d)
  | .done, h => h.elim
  | .write .., h => h.imp_right (·.imp_right (·.andThen_left))
  | .ask .., h => h.imp_right (·.imp_right (·.andThen_left))
  | .listen _ _ n, h => Owes.andThen_left (c := n) h
  | .global .., h => h.imp_right (·.andThen_left)
  | .main .., h => h.imp_right (·.andThen_left)
  | .env _, h => fun v => (h v).andThen_left
  | .get _, h => fun l hl => (h l hl).andThen_left
  | .modify .., h => ⟨h.1, h.2.andThen_left⟩
  | .note _ n, h => Owes.andThen_left (c := n) h

/-- The statements of `c` keep the memory as the debt has it. -/
def Keeps (b : Debt S) : Code S → Prop
  | .done => True
  | .write _ _ n => Keeps b n
  | .ask _ _ n => Keeps b n
  | .listen _ _ n => Keeps b n
  | .global _ n => Keeps b n
  | .main _ n => Keeps b n
  | .env k => ∀ v, Keeps b (k v)
  | .get k => ∀ l, b.loc l → Keeps b (k l)
  | .modify f n => (∀ l, b.loc l → b.loc (f l)) ∧ Keeps b n
  | .note _ n => Keeps b n

theorem Owes.andThen_right {d : Code S} (hd : b.Owes d) :
    ∀ {c : Code S}, b.Keeps c → b.Owes (c.andThen d)
  | .done, _ => hd
  | .write _ _ n, h => Or.inr (Or.inr (hd.andThen_right (c := n) h))
  | .ask _ _ n, h => Or.inr (Or.inr (hd.andThen_right (c := n) h))
  | .listen _ _ n, h => hd.andThen_right (c := n) h
  | .global _ n, h => Or.inr (hd.andThen_right (c := n) h)
  | .main _ n, h => Or.inr (hd.andThen_right (c := n) h)
  | .env _, h => fun v => hd.andThen_right (h v)
  | .get _, h => fun l hl => hd.andThen_right (h l hl)
  | .modify .., h => ⟨h.1, hd.andThen_right h.2⟩
  | .note _ n, h => hd.andThen_right (c := n) h

theorem Keeps.andThen {d : Code S} (hd : b.Keeps d) :
    ∀ {c : Code S}, b.Keeps c → b.Keeps (c.andThen d)
  | .done, _ => hd
  | .write _ _ n, h => hd.andThen (c := n) h
  | .ask _ _ n, h => hd.andThen (c := n) h
  | .listen _ _ n, h => hd.andThen (c := n) h
  | .global _ n, h => hd.andThen (c := n) h
  | .main _ n, h => hd.andThen (c := n) h
  | .env _, h => fun v => hd.andThen (h v)
  | .get _, h => fun l hl => hd.andThen (h l hl)
  | .modify .., h => ⟨h.1, hd.andThen h.2⟩
  | .note _ n, h => hd.andThen (c := n) h

theorem Keeps.forEach {α : Type} {f : α → Code S} :
    ∀ {l : List α}, (∀ a ∈ l, b.Keeps (f a)) → b.Keeps (Code.forEach l f)
  | [], _ => trivial
  | _ :: _, h =>
      (Keeps.forEach fun a ha => h a (List.mem_cons_of_mem _ ha)).andThen
        (h _ List.mem_cons_self)

theorem Owes.forEach {α : Type} {f : α → Code S} {a : α} :
    ∀ {l : List α}, a ∈ l → b.Owes (f a) → (∀ a ∈ l, b.Keeps (f a)) →
      b.Owes (Code.forEach l f)
  | x :: l, hm, ha, hk => by
      rcases List.mem_cons.mp hm with rfl | hm
      · exact ha.andThen_left
      · exact (Owes.forEach hm ha fun y hy => hk y (List.mem_cons_of_mem _ hy)).andThen_right
          (hk x List.mem_cons_self)

/-! ## Debts of a device -/

def OwesSent (b : Debt S) (m : Sent sys) : Prop :=
  b.write m.write ∨ ∀ r, b.res r → b.Owes (m.handler r)

def OwesAsked (b : Debt S) (m : Asked sys) : Prop :=
  b.ask m.q ∨ ∀ a, b.ans m.q a → b.Owes (m.handler a)

/-- Something outstanding on the device under tag `t` owes the debt. -/
def OwedBy (b : Debt S) (dev : Device sys) (t : sys.Tag) : Prop :=
  (∃ j ∈ dev.jobs, j.tag = t ∧ b.Owes j.code) ∨
    (∃ m ∈ dev.writes, m.tag = t ∧ b.OwesSent m) ∨
    (∃ m ∈ dev.asks, m.tag = t ∧ b.OwesAsked m)

theorem OwedBy.mem_tags {dev : Device sys} {t : sys.Tag} (h : b.OwedBy dev t) :
    t ∈ dev.tags := by
  simp only [Device.tags, List.mem_append, List.mem_map]
  rcases h with ⟨j, hj, rfl, -⟩ | ⟨m, hm, rfl, -⟩ | ⟨m, hm, rfl, -⟩
  · exact Or.inl (Or.inl (Or.inl ⟨j, hj, rfl⟩))
  · exact Or.inl (Or.inl (Or.inr ⟨m, hm, rfl⟩))
  · exact Or.inl (Or.inr ⟨m, hm, rfl⟩)

theorem not_owedBy_of_idle {dev : Device sys} (h : dev.idle = true) (t : sys.Tag) :
    ¬b.OwedBy dev t := by
  obtain ⟨hj, hw, ha⟩ := Device.idle_iff.mp h
  rintro (⟨j, hm, -⟩ | ⟨m, hm, -⟩ | ⟨m, hm, -⟩)
  · rw [hj] at hm; cases hm
  · rw [hw] at hm; cases hm
  · rw [ha] at hm; cases hm

/-- A device that keeps everything outstanding keeps its debts. -/
theorem OwedBy.mono {dev dev' : Device sys} {t : sys.Tag} (h : b.OwedBy dev t)
    (hj : ∀ j ∈ dev.jobs, j ∈ dev'.jobs) (hw : ∀ m ∈ dev.writes, m ∈ dev'.writes)
    (ha : ∀ m ∈ dev.asks, m ∈ dev'.asks) : b.OwedBy dev' t := by
  rcases h with ⟨j, hm, h⟩ | ⟨m, hm, h⟩ | ⟨m, hm, h⟩
  · exact Or.inl ⟨j, hj j hm, h⟩
  · exact Or.inr (Or.inl ⟨m, hw m hm, h⟩)
  · exact Or.inr (Or.inr ⟨m, ha m hm, h⟩)

/-- One statement of a block that owes: what is left owes, or what it
issued does. -/
theorem Owes.exec {t : sys.Tag} {v : S.Env} {srv : sys.Srv} {dev : Device sys} {c : Code S}
    {r : Turn sys} (hc : b.Owes c) (hl : b.loc dev.loc) (h : exec t v srv dev c = some r) :
    b.Owes r.code ∨ b.OwedBy r.device t := by
  cases c with
  | done => cases h
  | write w hd n =>
      cases h
      have hin : (⟨t, w, hd⟩ : Sent sys) ∈ dev.writes ++ [⟨t, w, hd⟩] := by simp
      rcases hc with hc | hc | hc
      · exact Or.inr (Or.inr (Or.inl ⟨_, hin, rfl, Or.inl hc⟩))
      · exact Or.inr (Or.inr (Or.inl ⟨_, hin, rfl, Or.inr hc⟩))
      · exact Or.inl hc
  | ask q hd n =>
      cases h
      have hin : (⟨t, q, hd⟩ : Asked sys) ∈ dev.asks ++ [⟨t, q, hd⟩] := by simp
      rcases hc with hc | hc | hc
      · exact Or.inr (Or.inr (Or.inr ⟨_, hin, rfl, Or.inl hc⟩))
      · exact Or.inr (Or.inr (Or.inr ⟨_, hin, rfl, Or.inr hc⟩))
      · exact Or.inl hc
  | listen q hd n => cases h; exact Or.inl hc
  | global c n =>
      cases h
      exact hc.symm.imp_right fun hc => Or.inl ⟨⟨t, c⟩, by simp [Device.jobs], rfl, hc⟩
  | main c n =>
      cases h
      exact hc.symm.imp_right fun hc => Or.inl ⟨⟨t, c⟩, by simp [Device.jobs], rfl, hc⟩
  | env k =>
      obtain ⟨_, -, rfl⟩ := Option.map_eq_some_iff.mp h
      exact Or.inl (hc v)
  | get k => cases h; exact Or.inl (hc _ hl)
  | modify f n => cases h; exact Or.inl hc.2
  | note m n => cases h; exact Or.inl hc

/-- A statement takes nothing away. -/
theorem exec_keeps {t : sys.Tag} {v : S.Env} {srv : sys.Srv} {dev : Device sys} {c : Code S}
    {r : Turn sys} (h : Async.exec t v srv dev c = some r) :
    (∀ j ∈ dev.jobs, j ∈ r.device.jobs) ∧ (∀ m ∈ dev.writes, m ∈ r.device.writes) ∧
      (∀ m ∈ dev.asks, m ∈ r.device.asks) := by
  cases c with
  | done => cases h
  | env k =>
      obtain ⟨_, -, rfl⟩ := Option.map_eq_some_iff.mp h
      exact ⟨fun _ h => h, fun _ h => h, fun _ h => h⟩
  | global c n =>
      cases h
      exact ⟨fun j hj => by
        simp only [Device.jobs, ← List.append_assoc]
        exact List.mem_append_left _ hj, fun _ h => h, fun _ h => h⟩
  | main c n =>
      cases h
      refine ⟨fun j hj => ?_, fun _ h => h, fun _ h => h⟩
      simp only [Device.jobs, List.mem_append] at hj ⊢
      tauto
  | write w hd n =>
      cases h; exact ⟨fun _ h => h, fun _ h => List.mem_append_left _ h, fun _ h => h⟩
  | ask q hd n =>
      cases h; exact ⟨fun _ h => h, fun _ h => h, fun _ h => List.mem_append_left _ h⟩
  | _ => cases h; exact ⟨fun _ h => h, fun _ h => h, fun _ h => h⟩

end Debt

section

variable [DecidableEq D]

/-- The event that settles what is owed under tag `t` on device `d`. -/
inductive Debt.Paid (b : Debt S) (w : World sys D) (d : D) (t : sys.Tag) :
    Event sys D → Prop
  | commit {fail m ms} (hw : (w.devices d).writes = m :: ms) (ht : m.tag = t)
      (hb : b.write m.write) : Paid b w d t (.commit d fail)
  | answer {i c m} (hi : (w.devices d).asks[i]? = some m) (ht : m.tag = t)
      (hb : b.ask m.q) : Paid b w d t (.answer d i c)

namespace Debt

variable {b : Debt S} {w w' : World sys D} {e : Event sys D} {d : D} {t : sys.Tag}

/-- A debt stays until it is paid. -/
theorem OwedBy.step (h : b.OwedBy (w.devices d) t) (hs : Stepped w e w')
    (hloc : b.loc (w.devices d).loc)
    (hres : ∀ fail m ms, e = .commit d fail → (w.devices d).writes = m :: ms →
      b.res (settle sys m.write fail w.server).2)
    (hans : ∀ q a srv, e.Answers w d t q a srv → b.ans q a) :
    b.OwedBy (w'.devices d) t ∨ b.Paid w d t e := by
  -- a step on another device leaves this one alone
  have other : ∀ {d' : D} {srv : sys.Srv} {dev : Device sys} {t' : sys.Tag}
      {obs : List (Obs S)}, w' = w.put d' srv dev t' obs → d' ≠ d →
      b.OwedBy (w'.devices d) t := by
    intro d' srv dev t' obs hw hd
    rw [hw, World.put_device_ne w (Ne.symm hd)]; exact h
  cases hs with
  | @act d' a hmain =>
      refine Or.inl ?_
      by_cases hd : d' = d
      · subst hd
        rw [World.put_device]
        exact h.mono (fun j hj => by
          rw [Device.begin_jobs hmain]; exact List.mem_cons_of_mem _ hj)
          (fun _ h => h) (fun _ h => h)
      · exact other rfl hd
  | @next d' j js hmain hin =>
      refine Or.inl ?_
      by_cases hd : d' = d
      · subst hd
        rw [World.put_device]
        rcases h with ⟨i, hi, ht, hi'⟩ | h | h
        · rw [Device.next_jobs hmain hin] at hi
          refine Or.inl ?_
          rw [Device.begin_jobs (by exact hmain)]
          rcases List.mem_cons.mp hi with rfl | hi
          · exact ⟨_, List.mem_cons_self, ht, hi'.start hloc⟩
          · exact ⟨i, List.mem_cons_of_mem _ hi, ht, hi'⟩
        · exact Or.inr (Or.inl h)
        · exact Or.inr (Or.inr h)
      · exact other rfl hd
  | @finish d' s v t' dev htake =>
      refine Or.inl ?_
      by_cases hd : d' = d
      · subst hd
        rw [World.put_device]
        rcases h with ⟨i, hi, ht, hi'⟩ | h | h
        · rcases List.mem_cons.mp ((Device.take_jobs htake).subset hi) with rfl | hi
          · exact hi'.elim
          · exact Or.inl ⟨i, hi, ht, hi'⟩
        · exact Or.inr (Or.inl (by rw [Device.take_writes htake]; exact h))
        · exact Or.inr (Or.inr (by rw [Device.take_asks htake]; exact h))
      · exact other rfl hd
  | @run d' s v t' c dev r htake hexec =>
      refine Or.inl ?_
      by_cases hd : d' = d
      · subst hd
        rw [World.put_device]
        obtain ⟨kj, kw, ka⟩ := exec_keeps hexec
        have hfree : s = .main → r.device.main = none := fun hm => by
          rw [exec_main hexec]; exact Device.take_free htake hm
        have hback : ∀ j, j = ⟨t', r.code⟩ ∨ j ∈ r.device.jobs →
            j ∈ (r.device.back ⟨t', r.code⟩ s).jobs := fun j hj =>
          (Device.back_jobs hfree).symm.subset (List.mem_cons.mpr hj)
        have hl : b.loc dev.loc := by rw [Device.take_loc htake]; exact hloc
        rcases h with ⟨i, hi, ht, hi'⟩ | ⟨m, hm, h⟩ | ⟨m, hm, h⟩
        · rcases List.mem_cons.mp ((Device.take_jobs htake).subset hi) with rfl | hi
          · rcases hi'.exec hl hexec with h' | h'
            · exact Or.inl ⟨_, hback _ (Or.inl rfl), ht, h'⟩
            · subst ht
              exact h'.mono (fun j hj => hback j (Or.inr hj))
                (fun m hm => by simpa using hm) (fun m hm => by simpa using hm)
          · exact Or.inl ⟨i, hback _ (Or.inr (kj i hi)), ht, hi'⟩
        · exact Or.inr (Or.inl ⟨m, by
            rw [Device.back_writes]; exact kw m (by rwa [Device.take_writes htake]), h⟩)
        · exact Or.inr (Or.inr ⟨m, by
            rw [Device.back_asks]; exact ka m (by rwa [Device.take_asks htake]), h⟩)
      · exact other rfl hd
  | @commit d' fail m ms hw =>
      by_cases hd : d' = d
      · subst hd
        rw [World.put_device]
        rcases h with ⟨i, hi, h⟩ | ⟨n, hn, ht, h⟩ | ⟨n, hn, h⟩
        · exact Or.inl (Or.inl ⟨i, Device.mem_jobs_arrive.mpr (Or.inr hi), h⟩)
        · rw [hw] at hn
          rcases List.mem_cons.mp hn with rfl | hn
          · rcases h with h | h
            · exact Or.inr (.commit hw ht h)
            · exact Or.inl (Or.inl ⟨_, Device.mem_jobs_arrive.mpr (Or.inl rfl), ht,
                h _ (hres fail n ms rfl hw)⟩)
          · exact Or.inl (Or.inr (Or.inl ⟨n, hn, ht, h⟩))
        · exact Or.inl (Or.inr (Or.inr ⟨n, hn, h⟩))
      · exact Or.inl (other rfl hd)
  | @answer d' i c m a srv hi hs =>
      by_cases hd : d' = d
      · subst hd
        rw [World.put_device]
        rcases h with ⟨j, hj, h⟩ | h | ⟨n, hn, ht, h⟩
        · exact Or.inl (Or.inl ⟨j, Device.mem_jobs_arrive.mpr (Or.inr hj), h⟩)
        · exact Or.inl (Or.inr (Or.inl h))
        · obtain ⟨hlt, rfl⟩ := List.getElem?_eq_some_iff.mp hi
          have hp := (List.getElem_cons_eraseIdx_perm hlt).symm
          rcases List.mem_cons.mp (hp.subset hn) with rfl | hn
          · rcases h with h | h
            · exact Or.inr (.answer hi ht h)
            · subst ht
              exact Or.inl (Or.inl ⟨_, Device.mem_jobs_arrive.mpr (Or.inl rfl), rfl,
                h a (hans _ a srv (.answer hi hs))⟩)
          · exact Or.inl (Or.inr (Or.inr ⟨n, hn, ht, h⟩))
      · exact Or.inl (other rfl hd)
  | @notify d' i c m a srv hi hs =>
      refine Or.inl ?_
      by_cases hd : d' = d
      · subst hd
        rw [World.put_device]
        exact h.mono (fun j hj => Device.mem_jobs_arrive.mpr (Or.inr hj)) (fun _ h => h)
          (fun _ h => h)
      · exact other rfl hd

/-- What the debt counts on when an event happens on device `d`. -/
structure Counts (b : Debt S) (w : World sys D) (d : D) (t : sys.Tag) (e : Event sys D) :
    Prop where
  loc : b.loc (w.devices d).loc
  res : ∀ fail m ms, e = .commit d fail → (w.devices d).writes = m :: ms →
    b.res (settle sys m.write fail w.server).2
  ans : ∀ q a srv, e.Answers w d t q a srv → b.ans q a

/-- A debt that was paid is on the log. -/
theorem Paid.log (h : b.Paid w d t e) (hs : Stepped w e w') :
    ∃ o, w'.log = ⟨d, t, o⟩ :: w.log ∧
      ((∃ wr r, b.write wr ∧ o = .wrote wr r) ∨ ∃ q a, b.ask q ∧ o = .answered q a) := by
  cases h with
  | commit hw ht hb =>
      cases hs with
      | commit hw' =>
          rw [hw] at hw'
          cases hw'
          subst ht
          exact ⟨_, rfl, Or.inl ⟨_, _, hb, rfl⟩⟩
  | answer hi ht hb =>
      cases hs with
      | answer hi' hv =>
          rw [hi] at hi'
          cases hi'
          subst ht
          exact ⟨_, rfl, Or.inr ⟨_, _, hb, rfl⟩⟩

/-- In the course of a run a debt is paid, or it is still there. -/
theorem OwedBy.run {ok : World sys D → Event sys D → Prop} {w₁ : World sys D}
    (hok : ∀ w e, ok w e → b.Counts w d t e) (hrun : Run ok w₁ w)
    (h : b.OwedBy (w₁.devices d) t) :
    ∃ l, w.log = l ++ w₁.log ∧ (b.OwedBy (w.devices d) t ∨
      ∃ x ∈ l, x.device = d ∧ x.tag = t ∧
        ((∃ wr r, b.write wr ∧ x.obs = .wrote wr r) ∨ ∃ q a, b.ask q ∧ x.obs = .answered q a)) := by
  induction hrun with
  | refl => exact ⟨[], rfl, Or.inl h⟩
  | @step w w' e _ hoke hstep ih =>
      have hs := stepped_of_step hstep
      obtain ⟨l, hl, hpaid⟩ := ih
      obtain ⟨l', hl'⟩ := hs.log
      refine ⟨l' ++ l, by rw [← hl', hl, List.append_assoc], ?_⟩
      have hc := hok _ _ hoke
      rcases hpaid with howed | ⟨x, hx, hpaid⟩
      · rcases howed.step hs hc.loc hc.res hc.ans with howed | hpaid
        · exact Or.inl howed
        · obtain ⟨o, ho, hpaid⟩ := hpaid.log hs
          refine Or.inr ⟨⟨d, t, o⟩, List.mem_append_left _ ?_, rfl, rfl, hpaid⟩
          rw [← hl', ← List.singleton_append] at ho
          rw [List.append_cancel_right ho]
          exact List.mem_singleton_self _
      · exact Or.inr ⟨x, List.mem_append_right _ hx, hpaid⟩

/-- A debt that counts on nothing, once incurred, is there or paid: so it is
for every entry of the log, if the step that makes the entry incurs it. -/
theorem owed_or_paid {ok : World sys D → Event sys D → Prop} {w₀ : World sys D}
    {I : Entry sys D → Prop} (hfree : ∀ (w : World sys D) d t e, b.Counts w d t e)
    (hask : ∀ q, ¬b.ask q) (h0 : w₀.log = [])
    (hnew : ∀ w e w', Run ok w₀ w → Stepped w e w' → ∀ x ∈ w'.log, I x →
      x ∈ w.log ∨ b.OwedBy (w'.devices x.device) x.tag) (hrun : Run ok w₀ w) :
    ∀ x ∈ w.log, I x → b.OwedBy (w.devices x.device) x.tag ∨
      ∃ y ∈ w.log, ∃ wr r, b.write wr ∧ y.obs = .wrote wr r := by
  induction hrun with
  | refl => exact fun x hx => by rw [h0] at hx; cases hx
  | @step w w' e hrun _ hstep ih =>
      intro x hx hIx
      have hs := stepped_of_step hstep
      rcases hnew w e w' hrun hs x hx hIx with hx | howed
      · rcases ih x hx hIx with howed | ⟨y, hy, h⟩
        · have hc := hfree w x.device x.tag e
          rcases howed.step hs hc.loc hc.res hc.ans with howed | hpaid
          · exact Or.inl howed
          · obtain ⟨o, ho, ⟨wr, r, hb, rfl⟩ | ⟨q, a, hb, -⟩⟩ := hpaid.log hs
            · exact Or.inr ⟨_, ho ▸ List.mem_cons_self, wr, r, hb, rfl⟩
            · exact absurd hb (hask q)
        · exact Or.inr ⟨y, hs.log.subset hy, h⟩
      · exact Or.inl howed

/-- The debt of one write. -/
def only (wr : S.Write) : Debt S where
  write w := w = wr

omit [DecidableEq D] in
theorem counts_only (wr : S.Write) (w : World sys D) (d : D) (t : sys.Tag)
    (e : Event sys D) : (only wr).Counts w d t e :=
  ⟨trivial, fun _ _ _ _ _ => trivial, fun _ _ _ _ => trivial⟩

end Debt

/-- A write on the log as issued was there before, or is now in flight. -/
theorem issued_of_step {w w' : World sys D} {e : Event sys D} (hs : Stepped w e w')
    {x : Entry sys D} {wr : S.Write} (hx : x ∈ w'.log) (ho : x.obs = .issued wr) :
    x ∈ w.log ∨ ∃ m ∈ (w'.devices x.device).writes, m.tag = x.tag ∧ m.write = wr := by
  cases hs with
  | @run d s v t c dev r htake hexec =>
      rcases List.mem_append.mp hx with hx | hx
      · obtain ⟨o, hmem, rfl⟩ := List.mem_map.mp hx
        cases c with
        | done => cases hexec
        | write wr' h n =>
            cases hexec
            rw [List.mem_singleton.mp hmem] at ho
            cases ho
            refine Or.inr ⟨⟨t, wr, h⟩, ?_, rfl, rfl⟩
            rw [World.put_device, Device.back_writes]
            exact List.mem_append_right _ List.mem_cons_self
        | env k =>
            obtain ⟨_, -, rfl⟩ := Option.map_eq_some_iff.mp hexec
            rw [List.mem_singleton.mp hmem] at ho
            cases ho
        | modify f n => cases hexec; rw [List.mem_singleton.mp hmem] at ho; cases ho
        | note k n => cases hexec; rw [List.mem_singleton.mp hmem] at ho; cases ho
        | _ => cases hexec; cases hmem
      · exact Or.inl hx
  | next => exact Or.inl hx
  | finish => exact Or.inl hx
  | _ =>
      rcases List.mem_cons.mp hx with rfl | hx
      · cases ho
      · exact Or.inl hx

/-- With nothing outstanding, every write that was issued has been settled. -/
theorem settled_of_issued {ok : World sys D → Event sys D → Prop} {w₀ w : World sys D}
    (h0 : w₀.log = []) (hrun : Run ok w₀ w) (hidle : w.Idle) {x : Entry sys D}
    (hx : x ∈ w.log) {wr : S.Write} (hobs : x.obs = .issued wr) :
    ∃ y ∈ w.log, ∃ r, y.obs = .wrote wr r := by
  have howed := Debt.owed_or_paid (b := Debt.only wr) (I := fun x => x.obs = .issued wr)
    (Debt.counts_only wr) (fun _ h => h) h0 (fun w e w' _ hs x hx ho => ?_) hrun x hx hobs
  · rcases howed with howed | ⟨y, hy, _, r, rfl, ho⟩
    · exact absurd howed (Debt.not_owedBy_of_idle (hidle _) _)
    · exact ⟨y, hy, r, ho⟩
  · refine (issued_of_step hs hx ho).imp_right ?_
    rintro ⟨m, hm, ht, hw⟩
    exact Or.inr (Or.inl ⟨m, hm, ht, Or.inl hw⟩)

end

end Async
