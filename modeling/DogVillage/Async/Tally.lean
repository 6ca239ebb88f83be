import DogVillage.Async.Run
import Mathlib.Algebra.BigOperators.Group.List.Basic
import Mathlib.Algebra.Order.Ring.Int
import Mathlib.Algebra.BigOperators.Ring.Finset
import Mathlib.Tactic.Linarith
import Mathlib.Tactic.Ring

/-!
# Counting what a run does

A `Tally` gives every entry of the log a value. Code is `AtMost` worth `n`
if what it comes to log, on every path, sums to at most `n`; so the total
of a device's log together with what is outstanding there never grows.
With a value and its negative that pins the total down: as many of one
kind of entry as of another, once nothing of either kind is outstanding.
-/

namespace Async

variable {S : Sig}

namespace Code

/-- Whatever becomes of it, the code only leads to observations that meet `P`. -/
def Leads (P : Obs S → Prop) : Code S → Prop
  | .done => True
  | .write w h n => P (.issued w) ∧ (∀ r, P (.wrote w r) ∧ (h r).Leads P) ∧ n.Leads P
  | .ask q h n => (∀ a, P (.answered q a) ∧ (h a).Leads P) ∧ n.Leads P
  | .listen q h n => (∀ a, P (.answered q a) ∧ (h a).Leads P) ∧ n.Leads P
  | .global b n => b.Leads P ∧ n.Leads P
  | .main b n => b.Leads P ∧ n.Leads P
  | .env k => ∀ v, P (.supplied v) ∧ (k v).Leads P
  | .get k => ∀ l, (k l).Leads P
  | .modify f n => P (.changed f) ∧ n.Leads P
  | .note x n => P (.noted x) ∧ n.Leads P

variable {P Q : Obs S → Prop}

theorem Leads.mono (hPQ : ∀ o, P o → Q o) : ∀ {c : Code S}, c.Leads P → c.Leads Q
  | .done, _ => trivial
  | .write .., h => ⟨hPQ _ h.1, fun r => ⟨hPQ _ (h.2.1 r).1, (h.2.1 r).2.mono hPQ⟩, h.2.2.mono hPQ⟩
  | .ask .., h => ⟨fun a => ⟨hPQ _ (h.1 a).1, (h.1 a).2.mono hPQ⟩, h.2.mono hPQ⟩
  | .listen .., h => ⟨fun a => ⟨hPQ _ (h.1 a).1, (h.1 a).2.mono hPQ⟩, h.2.mono hPQ⟩
  | .global .., h => ⟨h.1.mono hPQ, h.2.mono hPQ⟩
  | .main .., h => ⟨h.1.mono hPQ, h.2.mono hPQ⟩
  | .env _, h => fun v => ⟨hPQ _ (h v).1, (h v).2.mono hPQ⟩
  | .get _, h => fun l => (h l).mono hPQ
  | .modify .., h => ⟨hPQ _ h.1, h.2.mono hPQ⟩
  | .note .., h => ⟨hPQ _ h.1, h.2.mono hPQ⟩

theorem leads_of_forall (h : ∀ o, P o) : ∀ c : Code S, c.Leads P
  | .done => trivial
  | .write _ k n => ⟨h _, fun r => ⟨h _, leads_of_forall h (k r)⟩, leads_of_forall h n⟩
  | .ask _ k n => ⟨fun a => ⟨h _, leads_of_forall h (k a)⟩, leads_of_forall h n⟩
  | .listen _ k n => ⟨fun a => ⟨h _, leads_of_forall h (k a)⟩, leads_of_forall h n⟩
  | .global b n => ⟨leads_of_forall h b, leads_of_forall h n⟩
  | .main b n => ⟨leads_of_forall h b, leads_of_forall h n⟩
  | .env k => fun v => ⟨h _, leads_of_forall h (k v)⟩
  | .get k => fun l => leads_of_forall h (k l)
  | .modify _ n => ⟨h _, leads_of_forall h n⟩
  | .note _ n => ⟨h _, leads_of_forall h n⟩

theorem Leads.andThen {d : Code S} (hd : d.Leads P) : ∀ {c : Code S}, c.Leads P →
    (c.andThen d).Leads P
  | .done, _ => hd
  | .write .., h => ⟨h.1, h.2.1, hd.andThen h.2.2⟩
  | .ask .., h => ⟨h.1, hd.andThen h.2⟩
  | .listen .., h => ⟨h.1, hd.andThen h.2⟩
  | .global .., h => ⟨h.1, hd.andThen h.2⟩
  | .main .., h => ⟨h.1, hd.andThen h.2⟩
  | .env _, h => fun v => ⟨(h v).1, hd.andThen (h v).2⟩
  | .get _, h => fun l => hd.andThen (h l)
  | .modify .., h => ⟨h.1, hd.andThen h.2⟩
  | .note .., h => ⟨h.1, hd.andThen h.2⟩

theorem Leads.forEach {α : Type} {f : α → Code S} :
    ∀ {l : List α}, (∀ a ∈ l, (f a).Leads P) → (forEach l f).Leads P
  | [], _ => trivial
  | _ :: _, h =>
      (Leads.forEach fun b hb => h b (List.mem_cons_of_mem _ hb)).andThen
        (h _ List.mem_cons_self)

/-- Where only writes matter, the writes the code may issue are enough. -/
theorem Writes.leads {W : S.Write → Prop} (hW : ∀ w, W w → P (.issued w) ∧ ∀ r, P (.wrote w r))
    (hans : ∀ q a, P (.answered q a)) (henv : ∀ v, P (.supplied v))
    (hmod : ∀ f, P (.changed f)) (hnote : ∀ x, P (.noted x)) :
    ∀ {c : Code S}, c.Writes W → c.Leads P
  | .done, _ => trivial
  | .write .., h => ⟨(hW _ h.1).1, fun r => ⟨(hW _ h.1).2 r,
      (h.2.1 r).leads hW hans henv hmod hnote⟩, h.2.2.leads hW hans henv hmod hnote⟩
  | .ask .., h => ⟨fun a => ⟨hans _ a, (h.1 a).leads hW hans henv hmod hnote⟩,
      h.2.leads hW hans henv hmod hnote⟩
  | .listen .., h => ⟨fun a => ⟨hans _ a, (h.1 a).leads hW hans henv hmod hnote⟩,
      h.2.leads hW hans henv hmod hnote⟩
  | .global .., h => ⟨h.1.leads hW hans henv hmod hnote, h.2.leads hW hans henv hmod hnote⟩
  | .main .., h => ⟨h.1.leads hW hans henv hmod hnote, h.2.leads hW hans henv hmod hnote⟩
  | .env _, h => fun v => ⟨henv v, (h v).leads hW hans henv hmod hnote⟩
  | .get _, h => fun l => (h l).leads hW hans henv hmod hnote
  | .modify f n, h => ⟨hmod f, Writes.leads (c := n) hW hans henv hmod hnote h⟩
  | .note x n, h => ⟨hnote x, Writes.leads (c := n) hW hans henv hmod hnote h⟩

/-- One of the code's own statements reads the memory. -/
def Reads : Code S → Prop
  | .done => False
  | .write _ _ n => n.Reads
  | .ask _ _ n => n.Reads
  | .listen _ _ n => n.Reads
  | .global _ n => n.Reads
  | .main _ n => n.Reads
  | .env k => ∃ v, (k v).Reads
  | .get _ => True
  | .modify _ n => n.Reads
  | .note _ n => n.Reads

theorem reads_of_start : ∀ {c : Code S} {l : S.Loc}, (c.start l).Reads → c.Reads
  | .write _ _ n, _, h => reads_of_start (c := n) h
  | .ask _ _ n, _, h => reads_of_start (c := n) h
  | .listen _ _ n, _, h => reads_of_start (c := n) h
  | .global _ n, _, h => reads_of_start (c := n) h
  | .main _ n, _, h => reads_of_start (c := n) h
  | .env _, _, ⟨v, h⟩ => ⟨v, reads_of_start h⟩
  | .get _, _, _ => trivial
  | .modify _ n, _, h => reads_of_start (c := n) h
  | .note _ n, _, h => reads_of_start (c := n) h

theorem reads_of_andThen {d : Code S} : ∀ {c : Code S}, (c.andThen d).Reads → c.Reads ∨ d.Reads
  | .done, h => Or.inr h
  | .write _ _ n, h => reads_of_andThen (c := n) h
  | .ask _ _ n, h => reads_of_andThen (c := n) h
  | .listen _ _ n, h => reads_of_andThen (c := n) h
  | .global _ n, h => reads_of_andThen (c := n) h
  | .main _ n, h => reads_of_andThen (c := n) h
  | .env _, ⟨v, h⟩ => (reads_of_andThen h).imp_left fun h => ⟨v, h⟩
  | .get _, _ => Or.inl trivial
  | .modify _ n, h => reads_of_andThen (c := n) h
  | .note _ n, h => reads_of_andThen (c := n) h

end Code

variable {sys : System S} {D : Type}

/-- Whatever is outstanding on the device, or a listener, only leads to
observations that meet `P`. -/
structure Device.Leads (P : Obs S → Prop) (dev : Device sys) : Prop where
  jobs : ∀ j ∈ dev.jobs, j.code.Leads P
  writes : ∀ m ∈ dev.writes, ∀ r, P (.wrote m.write r) ∧ (m.handler r).Leads P
  asks : ∀ m ∈ dev.asks, ∀ a, P (.answered m.q a) ∧ (m.handler a).Leads P
  listeners : ∀ m ∈ dev.listeners, ∀ a, P (.answered m.q a) ∧ (m.handler a).Leads P

theorem Device.Leads.mono {P Q : Obs S → Prop} {dev : Device sys} (hPQ : ∀ o, P o → Q o)
    (h : dev.Leads P) : dev.Leads Q where
  jobs j hj := (h.jobs j hj).mono hPQ
  writes m hm r := ⟨hPQ _ (h.writes m hm r).1, (h.writes m hm r).2.mono hPQ⟩
  asks m hm a := ⟨hPQ _ (h.asks m hm a).1, (h.asks m hm a).2.mono hPQ⟩
  listeners m hm a := ⟨hPQ _ (h.listeners m hm a).1, (h.listeners m hm a).2.mono hPQ⟩

structure Tally (sys : System S) where
  value : sys.Tag → Obs S → ℤ
  /-- What a block counts on when it reads the memory. -/
  sees : sys.Tag → S.Loc → Prop := fun _ _ => True

namespace Tally

variable (y : Tally sys)

/-! ## Code -/

/-- What the code comes to log is worth at most `n`. -/
def AtMost (t : sys.Tag) : Code S → ℤ → Prop
  | .done, n => 0 ≤ n
  | .write w h k, n => ∃ m, AtMost t k m ∧
      ∀ r, AtMost t (h r) (n - m - y.value t (.issued w) - y.value t (.wrote w r))
  | .ask q h k, n => ∃ m, AtMost t k m ∧ ∀ a, AtMost t (h a) (n - m - y.value t (.answered q a))
  | .listen q h k, n => AtMost t k n ∧ ∀ a, AtMost t (h a) (-y.value t (.answered q a))
  | .global b k, n => ∃ m, AtMost t k m ∧ AtMost t b (n - m)
  | .main b k, n => ∃ m, AtMost t k m ∧ AtMost t b (n - m)
  | .env k, n => ∀ v, AtMost t (k v) (n - y.value t (.supplied v))
  | .get k, n => ∀ l, y.sees t l → AtMost t (k l) n
  | .modify f k, n =>
      (k.Reads → ∀ l, y.sees t l → y.sees t (f l)) ∧ AtMost t k (n - y.value t (.changed f))
  | .note x k, n => AtMost t k (n - y.value t (.noted x))

variable {y} {t : sys.Tag}

theorem AtMost.mono : ∀ {c : Code S} {n n' : ℤ}, y.AtMost t c n → n ≤ n' → y.AtMost t c n'
  | .done, _, _, h, hn => le_trans h hn
  | .write .., _, _, ⟨m, hm, h⟩, hn => ⟨m, hm, fun r => (h r).mono (by linarith)⟩
  | .ask .., _, _, ⟨m, hm, h⟩, hn => ⟨m, hm, fun a => (h a).mono (by linarith)⟩
  | .listen .., _, _, h, hn => ⟨h.1.mono hn, h.2⟩
  | .global .., _, _, ⟨m, hm, h⟩, hn => ⟨m, hm, h.mono (by linarith)⟩
  | .main .., _, _, ⟨m, hm, h⟩, hn => ⟨m, hm, h.mono (by linarith)⟩
  | .env _, _, _, h, hn => fun v => (h v).mono (by linarith)
  | .get _, _, _, h, hn => fun l hl => (h l hl).mono hn
  | .modify .., _, _, h, hn => ⟨h.1, h.2.mono (by linarith)⟩
  | .note _ k, _, _, h, hn => AtMost.mono (c := k) h (by linarith)

theorem AtMost.start : ∀ {c : Code S} {n : ℤ} {l : S.Loc}, y.AtMost t c n →
    (c.Reads → y.sees t l) → y.AtMost t (c.start l) n
  | .done, _, _, h, _ => h
  | .write .., _, _, ⟨m, hm, h⟩, hl => ⟨m, hm.start hl, h⟩
  | .ask .., _, _, ⟨m, hm, h⟩, hl => ⟨m, hm.start hl, h⟩
  | .listen .., _, _, h, hl => ⟨h.1.start hl, h.2⟩
  | .global .., _, _, ⟨m, hm, h⟩, hl => ⟨m, hm.start hl, h⟩
  | .main .., _, _, ⟨m, hm, h⟩, hl => ⟨m, hm.start hl, h⟩
  | .env _, _, _, h, hl => fun v => (h v).start fun hr => hl ⟨v, hr⟩
  | .get _, _, l, h, hl => (h l (hl trivial)).start fun _ => hl trivial
  | .modify .., _, l, h, hl =>
      ⟨fun hr => h.1 (Code.reads_of_start hr), h.2.start fun hr => h.1 hr l (hl hr)⟩
  | .note _ k, _, _, h, hl => AtMost.start (c := k) h hl

theorem AtMost.andThen {d : Code S} {m : ℤ} (hd : y.AtMost t d m)
    (hr : d.Reads → ∀ l, y.sees t l) :
    ∀ {c : Code S} {n : ℤ}, y.AtMost t c n → y.AtMost t (c.andThen d) (n + m)
  | .done, _, h => hd.mono (by linarith [show (0 : ℤ) ≤ _ from h])
  | .write .., _, ⟨k, hk, h⟩ => ⟨k + m, hd.andThen hr hk, fun r => (h r).mono (by linarith)⟩
  | .ask .., _, ⟨k, hk, h⟩ => ⟨k + m, hd.andThen hr hk, fun a => (h a).mono (by linarith)⟩
  | .listen .., _, h => ⟨hd.andThen hr h.1, h.2⟩
  | .global .., _, ⟨k, hk, h⟩ => ⟨k + m, hd.andThen hr hk, h.mono (by linarith)⟩
  | .main .., _, ⟨k, hk, h⟩ => ⟨k + m, hd.andThen hr hk, h.mono (by linarith)⟩
  | .env _, _, h => fun v => (hd.andThen hr (h v)).mono (by linarith)
  | .get _, _, h => fun l hl => hd.andThen hr (h l hl)
  | .modify .., _, h =>
      ⟨fun hc l hl => (Code.reads_of_andThen hc).elim (h.1 · l hl) (hr · _),
        (hd.andThen hr h.2).mono (by linarith)⟩
  | .note _ k, _, h => (hd.andThen hr (c := k) h).mono (by linarith)

theorem AtMost.forEach {α : Type} {f : α → Code S} (h : ∀ a, y.AtMost t (f a) 0)
    (hr : ∀ a, ¬ (f a).Reads) : ∀ l : List α,
      y.AtMost t (Code.forEach l f) 0 ∧ ¬ (Code.forEach l f).Reads
  | [] => ⟨le_refl _, fun h => h⟩
  | a :: l => by
      obtain ⟨hl, hrl⟩ := AtMost.forEach h hr l
      refine ⟨(hl.andThen (fun hd => absurd hd hrl) (h a)).mono (le_refl _), fun hc => ?_⟩
      exact (Code.reads_of_andThen hc).elim (hr a) hrl

/-- Code that leads to nothing of value. -/
theorem AtMost.of_leads (hsees : ∀ l, y.sees t l) :
    ∀ {c : Code S}, c.Leads (fun o => y.value t o ≤ 0) → y.AtMost t c 0
  | .done, _ => le_refl _
  | .write .., h => ⟨0, .of_leads hsees h.2.2, fun r =>
      (AtMost.of_leads hsees (h.2.1 r).2).mono (by linarith [h.1, (h.2.1 r).1])⟩
  | .ask .., h => ⟨0, .of_leads hsees h.2, fun a =>
      (AtMost.of_leads hsees (h.1 a).2).mono (by linarith [(h.1 a).1])⟩
  | .listen .., h => ⟨.of_leads hsees h.2, fun a =>
      (AtMost.of_leads hsees (h.1 a).2).mono (by linarith [(h.1 a).1])⟩
  | .global .., h => ⟨0, .of_leads hsees h.2, (AtMost.of_leads hsees h.1).mono (by linarith)⟩
  | .main .., h => ⟨0, .of_leads hsees h.2, (AtMost.of_leads hsees h.1).mono (by linarith)⟩
  | .env _, h => fun v => (AtMost.of_leads hsees (h v).2).mono (by linarith [(h v).1])
  | .get _, h => fun l _ => .of_leads hsees (h l)
  | .modify f _, h => ⟨fun _ l _ => hsees (f l),
      (AtMost.of_leads hsees h.2).mono (by linarith [h.1])⟩
  | .note .., h => (AtMost.of_leads hsees h.2).mono (by linarith [h.1])

/-- Code whose values are not negative is worth at least nothing, if every
call can be answered and every read sees something. -/
theorem AtMost.nonneg (hans : ∀ q, Nonempty (S.Ans q)) (henv : Nonempty S.Env)
    (hsees : ∃ l, y.sees t l) :
    ∀ {c : Code S} {n : ℤ}, c.Leads (fun o => 0 ≤ y.value t o) → y.AtMost t c n → 0 ≤ n
  | .done, _, _, h => h
  | .write .., _, hl, ⟨m, hm, h⟩ => by
      have h1 := AtMost.nonneg hans henv hsees hl.2.2 hm
      have h2 := AtMost.nonneg hans henv hsees (hl.2.1 none).2 (h none)
      linarith [hl.1, (hl.2.1 none).1]
  | .ask q _ _, _, hl, ⟨m, hm, h⟩ => by
      obtain ⟨a⟩ := hans q
      have h1 := AtMost.nonneg hans henv hsees hl.2 hm
      have h2 := AtMost.nonneg hans henv hsees (hl.1 a).2 (h a)
      linarith [(hl.1 a).1]
  | .listen .., _, hl, h => AtMost.nonneg hans henv hsees hl.2 h.1
  | .global .., _, hl, ⟨m, hm, h⟩ => by
      have h1 := AtMost.nonneg hans henv hsees hl.2 hm
      have h2 := AtMost.nonneg hans henv hsees hl.1 h
      linarith
  | .main .., _, hl, ⟨m, hm, h⟩ => by
      have h1 := AtMost.nonneg hans henv hsees hl.2 hm
      have h2 := AtMost.nonneg hans henv hsees hl.1 h
      linarith
  | .env k, _, hl, h => by
      obtain ⟨v⟩ := henv
      have h1 := AtMost.nonneg hans ⟨v⟩ hsees (hl v).2 (h v)
      linarith [(hl v).1]
  | .get k, _, hl, h => by
      obtain ⟨l, hsl⟩ := hsees
      exact AtMost.nonneg hans henv ⟨l, hsl⟩ (hl l) (h l hsl)
  | .modify .., _, hl, h => by
      have h1 := AtMost.nonneg hans henv hsees hl.2 h.2
      linarith [hl.1]
  | .note .., _, hl, h => by
      have h1 := AtMost.nonneg hans henv hsees hl.2 h
      linarith [hl.1]

variable (y) in
/-- Every call has an answer that is worth something, if only nothing. -/
structure Generous : Prop where
  issued : ∀ t w, 0 ≤ y.value t (.issued w)
  wrote : ∀ t w, ∃ r, 0 ≤ y.value t (.wrote w r)
  answered : ∀ t q, ∃ a, 0 ≤ y.value t (.answered q a)
  supplied : ∀ t, ∃ v, 0 ≤ y.value t (.supplied v)
  changed : ∀ t f, 0 ≤ y.value t (.changed f)
  noted : ∀ t x, 0 ≤ y.value t (.noted x)
  sees : ∀ t, ∃ l, y.sees t l

/-- Then all code is worth at least nothing. -/
theorem Generous.nonneg (hy : y.Generous) :
    ∀ {c : Code S} {n : ℤ}, y.AtMost t c n → 0 ≤ n
  | .done, _, h => h
  | .write w _ _, _, ⟨m, hm, h⟩ => by
      obtain ⟨r, hr⟩ := hy.wrote t w
      have h1 := hy.nonneg hm
      have h2 := hy.nonneg (h r)
      linarith [hy.issued t w]
  | .ask q _ _, _, ⟨m, hm, h⟩ => by
      obtain ⟨a, ha⟩ := hy.answered t q
      have h1 := hy.nonneg hm
      have h2 := hy.nonneg (h a)
      linarith
  | .listen .., _, h => hy.nonneg h.1
  | .global .., _, ⟨m, hm, h⟩ => by linarith [hy.nonneg hm, hy.nonneg h]
  | .main .., _, ⟨m, hm, h⟩ => by linarith [hy.nonneg hm, hy.nonneg h]
  | .env _, _, h => by
      obtain ⟨v, hv⟩ := hy.supplied t
      linarith [hy.nonneg (h v)]
  | .get _, _, h => by
      obtain ⟨l, hl⟩ := hy.sees t
      exact hy.nonneg (h l hl)
  | .modify f k, _, h => by linarith [hy.nonneg (c := k) h.2, hy.changed t f]
  | .note x k, _, h => by linarith [hy.nonneg (c := k) h, hy.noted t x]

/-! ## Sums -/

/-- The elements are worth at most `n` together. -/
def Sum {α : Type} (R : α → ℤ → Prop) : List α → ℤ → Prop
  | [], n => 0 ≤ n
  | a :: l, n => ∃ m, R a m ∧ Sum R l (n - m)

section

variable {α : Type} {R : α → ℤ → Prop} {a : α} {l l' : List α} {n m : ℤ}

theorem Sum.mono : ∀ {l : List α} {n n' : ℤ}, Sum R l n → n ≤ n' → Sum R l n'
  | [], _, _, h, hn => le_trans h hn
  | _ :: _, _, _, ⟨m, hm, h⟩, hn => ⟨m, hm, h.mono (by linarith)⟩

theorem Sum.perm (hp : l.Perm l') : ∀ {n : ℤ}, Sum R l n → Sum R l' n := by
  induction hp with
  | nil => exact fun h => h
  | cons a _ ih => exact fun ⟨m, hm, h⟩ => ⟨m, hm, ih h⟩
  | swap a b l =>
      rintro n ⟨m, hm, k, hk, h⟩
      exact ⟨k, hk, m, hm, h.mono (by linarith)⟩
  | trans _ _ ih ih' => exact fun h => ih' (ih h)

theorem Sum.append (h : Sum R l n) (h' : Sum R l' m) : Sum R (l ++ l') (n + m) := by
  induction l generalizing n with
  | nil => exact h'.mono (by linarith [show (0 : ℤ) ≤ n from h])
  | cons a l ih =>
      obtain ⟨k, hk, h⟩ := h
      exact ⟨k, hk, (ih h).mono (by linarith)⟩

theorem Sum.single (h : R a n) : Sum R [a] n := ⟨n, h, by simp [Sum]⟩

theorem Sum.nonneg (hR : ∀ a ∈ l, ∀ n, R a n → 0 ≤ n) : ∀ {n : ℤ}, Sum R l n → 0 ≤ n := by
  induction l with
  | nil => exact fun h => h
  | cons a l ih =>
      rintro n ⟨m, hm, h⟩
      have h1 := hR a List.mem_cons_self m hm
      have h2 := ih (fun b hb => hR b (List.mem_cons_of_mem _ hb)) h
      linarith

end

/-! ## Devices -/

variable (y)

def JobAtMost (j : Job sys) (n : ℤ) : Prop := y.AtMost j.tag j.code n

def SentAtMost (m : Sent sys) (n : ℤ) : Prop :=
  ∀ r, y.AtMost m.tag (m.handler r) (n - y.value m.tag (.wrote m.write r))

def AskedAtMost (m : Asked sys) (n : ℤ) : Prop :=
  ∀ a, y.AtMost m.tag (m.handler a) (n - y.value m.tag (.answered m.q a))

/-- What is outstanding on a device is worth at most `n`. -/
structure Holds (dev : Device sys) (n : ℤ) : Prop where
  sums : ∃ a b c, Sum y.JobAtMost dev.jobs a ∧ Sum y.SentAtMost dev.writes b ∧
    Sum y.AskedAtMost dev.asks c ∧ a + b + c ≤ n
  listeners : ∀ m ∈ dev.listeners, y.AskedAtMost m 0

variable {y} {dev : Device sys} {j : Job sys} {n k : ℤ}

theorem Holds.mono {n' : ℤ} (h : y.Holds dev n) (hn : n ≤ n') : y.Holds dev n' := by
  obtain ⟨⟨a, b, c, ha, hb, hc, hle⟩, hl⟩ := h
  exact ⟨⟨a, b, c, ha, hb, hc, le_trans hle hn⟩, hl⟩

/-- One more job. -/
theorem Holds.job {dev' : Device sys} (h : y.Holds dev n) (hj : y.AtMost j.tag j.code k)
    (hjobs : dev'.jobs.Perm (j :: dev.jobs)) (hw : dev'.writes = dev.writes)
    (ha : dev'.asks = dev.asks) (hl : dev'.listeners = dev.listeners) : y.Holds dev' (n + k) := by
  obtain ⟨⟨a, b, c, ha', hb, hc, hle⟩, hlis⟩ := h
  have hsum : Sum y.JobAtMost (j :: dev.jobs) (a + k) := ⟨k, hj, ha'.mono (by linarith)⟩
  refine ⟨⟨a + k, b, c, hsum.perm hjobs.symm, hw ▸ hb, ha ▸ hc, by linarith⟩, ?_⟩
  rw [hl]
  exact hlis

theorem Holds.begin (h : y.Holds dev n) (hmain : dev.main = none)
    (hj : y.AtMost j.tag (j.code.start dev.loc) k) : y.Holds (dev.begin j) (n + k) :=
  h.job (j := ⟨j.tag, j.code.start dev.loc⟩) hj (by rw [Device.begin_jobs hmain]) rfl rfl rfl

theorem Holds.arrive (h : y.Holds dev n) (hj : y.AtMost j.tag j.code k) :
    y.Holds (dev.arrive j) (n + k) :=
  h.job hj Device.arrive_jobs rfl rfl rfl

/-- One job less. -/
theorem Holds.take {s : Slot} {dev' : Device sys} (h : y.Holds dev n)
    (htake : dev.take s = some (j, dev')) :
    ∃ k, y.AtMost j.tag j.code k ∧ y.Holds dev' (n - k) := by
  obtain ⟨⟨a, b, c, ha, hb, hc, hle⟩, hl⟩ := h
  obtain ⟨k, hk, hrest⟩ := ha.perm (Device.take_jobs htake)
  refine ⟨k, hk, ⟨a - k, b, c, hrest, ?_, ?_, by linarith⟩, ?_⟩
  · rw [Device.take_writes htake]; exact hb
  · rw [Device.take_asks htake]; exact hc
  · rw [Device.take_listeners htake]; exact hl

theorem AtMost.exec {v : S.Env} {srv : sys.Srv} {c : Code S} {r : Turn sys}
    (hc : y.AtMost t c k) (hdev : y.Holds dev n) (hsees : c.Reads → y.sees t dev.loc)
    (h : Async.exec t v srv dev c = some r) :
    ∃ k' n', y.AtMost t r.code k' ∧ y.Holds r.device n' ∧
      k' + n' + (r.obs.map (y.value t)).sum ≤ k + n := by
  obtain ⟨⟨ja, wb, qc, hja, hwb, hqc, hle⟩, hlis⟩ := hdev
  have hdev : y.Holds dev n := ⟨⟨ja, wb, qc, hja, hwb, hqc, hle⟩, hlis⟩
  cases c with
  | done => cases h
  | write w hd nx =>
      cases h
      obtain ⟨m, hm, hr⟩ := hc
      have hsent : y.SentAtMost ⟨t, w, hd⟩ (k - m - y.value t (.issued w)) := hr
      refine ⟨m, n + (k - m - y.value t (.issued w)), hm,
        ⟨⟨ja, _, qc, hja, hwb.append (.single hsent), hqc, by linarith⟩, hlis⟩, ?_⟩
      simp
      linarith
  | ask q hd nx =>
      cases h
      obtain ⟨m, hm, hr⟩ := hc
      have hasked : y.AskedAtMost ⟨t, q, hd⟩ (k - m) := hr
      refine ⟨m, n + (k - m), hm,
        ⟨⟨ja, wb, _, hja, hwb, hqc.append (.single hasked), by linarith⟩, hlis⟩, ?_⟩
      simp
      linarith
  | listen q hd nx =>
      cases h
      refine ⟨k, n, hc.1, ⟨⟨ja, wb, qc, hja, hwb, hqc, hle⟩, fun m hm => ?_⟩, by simp⟩
      rcases List.mem_append.mp hm with hm | hm
      · exact hlis m hm
      · rw [List.mem_singleton.mp hm]
        exact fun a => (hc.2 a).mono (by simp)
  | global b nx =>
      cases h
      obtain ⟨m, hm, hb⟩ := hc
      refine ⟨m, n + (k - m), hm, hdev.job (j := ⟨t, b⟩) hb ?_ rfl rfl rfl,
        by simp; linarith⟩
      simp only [Device.jobs, ← List.append_assoc]
      exact List.perm_append_singleton _ _
  | main b nx =>
      cases h
      obtain ⟨m, hm, hb⟩ := hc
      exact ⟨m, n + (k - m), hm, hdev.job (j := ⟨t, b⟩) hb Device.arrive_jobs rfl rfl rfl,
        by simp; linarith⟩
  | env f =>
      obtain ⟨_, -, rfl⟩ := Option.map_eq_some_iff.mp h
      exact ⟨k - y.value t (.supplied v), n, hc v, hdev, by simp; linarith⟩
  | get f =>
      cases h
      exact ⟨k, n, hc _ (hsees trivial), hdev, by simp⟩
  | modify f nx =>
      cases h
      refine ⟨k - y.value t (.changed f), n, hc.2, ?_, by simp; linarith⟩
      exact ⟨⟨ja, wb, qc, hja, hwb, hqc, hle⟩, hlis⟩
  | note x nx =>
      cases h
      exact ⟨k - y.value t (.noted x), n, hc, hdev, by simp; linarith⟩

/-! ## Worlds -/

variable (y) [DecidableEq D]

/-- The value of a device's entries. -/
def total (d : D) (log : List (Entry sys D)) : ℤ :=
  (log.map fun x => if x.device = d then y.value x.tag x.obs else 0).sum

/-- With what is outstanding on it, the device's log is worth at most nothing. -/
def Tallied (d : D) (w : World sys D) : Prop :=
  ∃ n, y.Holds (w.devices d) n ∧ y.total d w.log + n ≤ 0

variable {y} {d : D} {w w' : World sys D} {e : Event sys D}

theorem total_append (l l' : List (Entry sys D)) :
    y.total d (l ++ l') = y.total d l + y.total d l' := by
  simp [total]

theorem total_obs (t : sys.Tag) (obs : List (Obs S)) :
    y.total d (obs.map (⟨d, t, ·⟩)) = (obs.map (y.value t)).sum := by
  simp [total, Function.comp_def]

theorem total_obs_ne {d' : D} (hd : d' ≠ d) (t : sys.Tag) (obs : List (Obs S)) :
    y.total d (obs.map (⟨d', t, ·⟩)) = 0 := by
  simp [total, Function.comp_def, hd]

theorem Tallied.step (h : y.Tallied d w) (hs : Stepped w e w')
    (hact : ∀ a, e = .act d a → y.AtMost (sys.ui a (w.devices d).loc).1
      ((sys.ui a (w.devices d).loc).2.start (w.devices d).loc)
      (-y.value (sys.ui a (w.devices d).loc).1 .acted))
    (hsees : ∀ j, e.Takes w d j → j.code.Reads → y.sees j.tag (w.devices d).loc) :
    y.Tallied d w' := by
  obtain ⟨n, hn, htot⟩ := h
  -- a step on another device changes neither the log nor the device
  have key : ∀ {d' : D} {srv : sys.Srv} {dev : Device sys} {t : sys.Tag} {obs : List (Obs S)},
      w' = w.put d' srv dev t obs →
      (d' = d → ∃ n', y.Holds dev n' ∧ n' + (obs.map (y.value t)).sum ≤ n) → y.Tallied d w' := by
    rintro d' srv dev t obs rfl hdev
    by_cases hd : d' = d
    · subst hd
      obtain ⟨n', hn', hle⟩ := hdev rfl
      refine ⟨n', by rwa [World.put_device], ?_⟩
      rw [World.put, total_append, total_obs]
      linarith
    · refine ⟨n, by rwa [World.put_device_ne w (Ne.symm hd)], ?_⟩
      rw [World.put, total_append, total_obs_ne hd]
      linarith
  cases hs with
  | @act d' a hmain =>
      refine key rfl ?_
      rintro rfl
      have hjob := hn.begin (j := ⟨(sys.ui a (w.devices d').loc).1, _⟩) hmain (hact a rfl)
      exact ⟨_, hjob, by simp⟩
  | @next d' j js hmain hin =>
      refine key rfl ?_
      rintro rfl
      obtain ⟨⟨a, b, c, ha, hb, hc, hle⟩, hl⟩ := hn
      rw [Device.next_jobs hmain hin] at ha
      obtain ⟨k, hk, ha⟩ := ha
      have hrest : y.Holds { w.devices d' with inbox := js } (n - k) :=
        ⟨⟨a - k, b, c, ha, hb, hc, by linarith⟩, hl⟩
      have hk' : y.AtMost j.tag (j.code.start (w.devices d').loc) k :=
        AtMost.start hk (hsees _ (.next hin))
      have hjob := hrest.begin (j := j) hmain hk'
      exact ⟨_, hjob, by simp⟩
  | @finish d' s v t dev htake =>
      refine key rfl ?_
      rintro rfl
      obtain ⟨k, hk, hrest⟩ := hn.take htake
      exact ⟨n - k, hrest, by simpa using (show (0 : ℤ) ≤ k from hk)⟩
  | @run d' s v t c dev r htake hexec =>
      refine key rfl ?_
      rintro rfl
      obtain ⟨k, hk, hrest⟩ := hn.take htake
      have hl : dev.loc = (w.devices d').loc := Device.take_loc htake
      obtain ⟨k', n', hk', hn', hle⟩ := hk.exec hrest (hl ▸ hsees _ (.run htake)) hexec
      have hfree : s = .main → r.device.main = none := fun h => by
        rw [exec_main hexec]; exact Device.take_free htake h
      refine ⟨n' + k', hn'.job (j := ⟨t, r.code⟩) hk' (Device.back_jobs hfree) (by simp) (by simp)
        (by simp), by linarith⟩
  | @commit d' fail m ms hw =>
      refine key rfl ?_
      rintro rfl
      obtain ⟨⟨a, b, c, ha, hb, hc, hle⟩, hl⟩ := hn
      rw [hw] at hb
      obtain ⟨k, hk, hb⟩ := hb
      have hrest : y.Holds { w.devices d' with writes := ms } (n - k) :=
        ⟨⟨a, b - k, c, ha, hb, hc, by linarith⟩, hl⟩
      have hjob := hrest.arrive (j := ⟨m.tag, _⟩) (hk (settle sys m.write fail w.server).2)
      exact ⟨_, hjob, by simp⟩
  | @answer d' i q m a srv hi hv =>
      refine key rfl ?_
      rintro rfl
      obtain ⟨⟨ja, b, c, ha, hb, hc, hle⟩, hl⟩ := hn
      obtain ⟨hlt, rfl⟩ := List.getElem?_eq_some_iff.mp hi
      obtain ⟨k, hk, hc⟩ := hc.perm (List.getElem_cons_eraseIdx_perm hlt).symm
      have hrest : y.Holds
          { w.devices d' with asks := (w.devices d').asks.eraseIdx i } (n - k) :=
        ⟨⟨ja, b, c - k, ha, hb, hc, by linarith⟩, hl⟩
      have hjob := hrest.arrive (j := ⟨_, _⟩) (hk a)
      exact ⟨_, hjob, by simp⟩
  | @notify d' i q m a srv hi hv =>
      refine key rfl ?_
      rintro rfl
      have hjob := hn.arrive (j := ⟨m.tag, _⟩) (hn.listeners m (List.mem_of_getElem? hi) a)
      exact ⟨_, hjob, by simp⟩

theorem Generous.sent (hy : y.Generous) {m : Sent sys} {n : ℤ} (h : y.SentAtMost m n) :
    0 ≤ n := by
  obtain ⟨r, hr⟩ := hy.wrote m.tag m.write
  linarith [hy.nonneg (h r)]

theorem Generous.asked (hy : y.Generous) {m : Asked sys} {n : ℤ} (h : y.AskedAtMost m n) :
    0 ≤ n := by
  obtain ⟨a, ha⟩ := hy.answered m.tag m.q
  linarith [hy.nonneg (h a)]

theorem Tallied.le (hy : y.Generous) (h : y.Tallied d w) : y.total d w.log ≤ 0 := by
  obtain ⟨n, ⟨⟨a, b, c, ha, hb, hc, hle⟩, -⟩, htot⟩ := h
  have h1 := ha.nonneg fun j _ k hk => hy.nonneg hk
  have h2 := hb.nonneg fun m _ k hk => hy.sent hk
  have h3 := hc.nonneg fun m _ k hk => hy.asked hk
  linarith

/-- A write under way counts as if it were on the log. -/
theorem Tallied.sent (hy : y.Generous) (h : y.Tallied d w) {m : Sent sys}
    (hm : m ∈ (w.devices d).writes) (r : Option S.Err) :
    y.total d w.log + y.value m.tag (.wrote m.write r) ≤ 0 := by
  obtain ⟨n, ⟨⟨a, b, c, ha, hb, hc, hle⟩, -⟩, htot⟩ := h
  have h1 := ha.nonneg fun j _ k hk => hy.nonneg hk
  have h3 := hc.nonneg fun m _ k hk => hy.asked hk
  obtain ⟨i, hlt, rfl⟩ := List.mem_iff_getElem.mp hm
  obtain ⟨k, hk, hrest⟩ := hb.perm (List.getElem_cons_eraseIdx_perm hlt).symm
  have h2 := hrest.nonneg fun m _ k hk => hy.sent hk
  linarith [hy.nonneg (hk r)]

/-- So does a call under way. -/
theorem Tallied.asked (hy : y.Generous) (h : y.Tallied d w) {m : Asked sys}
    (hm : m ∈ (w.devices d).asks) (a : S.Ans m.q) :
    y.total d w.log + y.value m.tag (.answered m.q a) ≤ 0 := by
  obtain ⟨n, ⟨⟨ja, b, c, ha, hb, hc, hle⟩, -⟩, htot⟩ := h
  have h1 := ha.nonneg fun j _ k hk => hy.nonneg hk
  have h2 := hb.nonneg fun m _ k hk => hy.sent hk
  obtain ⟨i, hlt, rfl⟩ := List.mem_iff_getElem.mp hm
  obtain ⟨k, hk, hrest⟩ := hc.perm (List.getElem_cons_eraseIdx_perm hlt).symm
  have h3 := hrest.nonneg fun m _ k hk => hy.asked hk
  linarith [hy.nonneg (hk a)]

/-- Where nothing of negative value is outstanding, the log is worth at most
nothing. -/
theorem Tallied.settled (h : y.Tallied d w) (hans : ∀ q, Nonempty (S.Ans q))
    (henv : Nonempty S.Env) (hsees : ∀ t, ∃ l, y.sees t l)
    (hdev : (w.devices d).Leads fun o => ∀ t, 0 ≤ y.value t o) : y.total d w.log ≤ 0 := by
  obtain ⟨n, ⟨⟨a, b, c, ha, hb, hc, hle⟩, -⟩, htot⟩ := h
  have hcode : ∀ {t : sys.Tag} {c : Code S} {n : ℤ},
      c.Leads (fun o => ∀ t, 0 ≤ y.value t o) → y.AtMost t c n → 0 ≤ n := fun hl h =>
    h.nonneg hans henv (hsees _) (hl.mono fun o ho => ho _)
  have h1 := ha.nonneg fun j hj k hk => hcode (hdev.jobs j hj) hk
  have h2 := hb.nonneg fun m hm k hk => by
    have hm := hdev.writes m hm none
    linarith [hcode hm.2 (hk none), hm.1 m.tag]
  have h3 := hc.nonneg fun m hm k hk => by
    obtain ⟨x⟩ := hans m.q
    have hm := hdev.asks m hm x
    linarith [hcode hm.2 (hk x), hm.1 m.tag]
  linarith

theorem tallied_of_idle {y : Tally sys} (hlog : w.log = []) (hidle : (w.devices d).idle = true)
    (hl : (w.devices d).listeners = []) : y.Tallied d w := by
  obtain ⟨hjobs, hwrites, hasks⟩ := Device.idle_iff.mp hidle
  refine ⟨0, ⟨⟨0, 0, 0, ?_, ?_, ?_, le_refl _⟩, ?_⟩, by simp [hlog, total]⟩
  · rw [hjobs]; exact le_refl (0 : ℤ)
  · rw [hwrites]; exact le_refl (0 : ℤ)
  · rw [hasks]; exact le_refl (0 : ℤ)
  · simp [hl]

/-- A tally whose blocks may see any memory holds in every run. -/
theorem Tallied.of_run {ok : World sys D → Event sys D → Prop} {w₀ : World sys D}
    (hact : ∀ a l, y.AtMost (sys.ui a l).1 ((sys.ui a l).2.start l) (-y.value (sys.ui a l).1 .acted))
    (hsees : ∀ t l, y.sees t l) (h0 : y.Tallied d w₀) (hrun : Run ok w₀ w) : y.Tallied d w :=
  hrun.inv (y.Tallied d) h0 fun _ _ _ h _ hs =>
    h.step hs (fun a _ => hact a _) fun _ _ _ => hsees _ _

/-! ## Balances -/

/-- `s` for every entry that is a debit, less `s` for every credit. -/
def balance (debit credit : sys.Tag → Obs S → Bool) (s : ℤ)
    (sees : sys.Tag → S.Loc → Prop) : Tally sys where
  value t o := s * (debit t o).toInt - s * (credit t o).toInt
  sees := sees

/-- A balance whose credits are actions alone: nothing the code comes to log
is worth less than nothing. -/
theorem generous_balance {debit credit : sys.Tag → Obs S → Bool} {sees : sys.Tag → S.Loc → Prop}
    (hcredit : ∀ t o, o ≠ .acted → credit t o = false) (hans : ∀ q, Nonempty (S.Ans q))
    (henv : Nonempty S.Env) (hsees : ∀ t, ∃ l, sees t l) :
    (balance debit credit 1 sees : Tally sys).Generous := by
  have hnn : ∀ t o, o ≠ .acted → 0 ≤ (balance debit credit 1 sees : Tally sys).value t o := by
    intro t o ho
    show 0 ≤ 1 * (debit t o).toInt - 1 * (credit t o).toInt
    rw [hcredit t o ho]
    cases debit t o <;> simp
  obtain ⟨v⟩ := henv
  exact {
    issued := fun t w => hnn t _ (by simp)
    wrote := fun t w => ⟨none, hnn t _ (by simp)⟩
    answered := fun t q => (hans q).elim fun a => ⟨a, hnn t _ (by simp)⟩
    supplied := fun t => ⟨v, hnn t _ (by simp)⟩
    changed := fun t f => hnn t _ (by simp)
    noted := fun t x => hnn t _ (by simp)
    sees := hsees }

/-- The number of a device's entries of a kind. -/
def count (d : D) (p : sys.Tag → Obs S → Bool) (log : List (Entry sys D)) : ℕ :=
  log.countP fun x => decide (x.device = d) && p x.tag x.obs

theorem total_balance {debit credit : sys.Tag → Obs S → Bool} {s : ℤ}
    {sees : sys.Tag → S.Loc → Prop} (log : List (Entry sys D)) :
    (balance debit credit s sees).total d log =
      s * count d debit log - s * count d credit log := by
  induction log with
  | nil => simp [total, count]
  | cons x log ih =>
      have hx : ∀ p : sys.Tag → Obs S → Bool, (count d p (x :: log) : ℤ) =
          count d p log + if x.device = d then (p x.tag x.obs).toInt else 0 := by
        intro p
        by_cases hd : x.device = d
        · cases hp : p x.tag x.obs <;> simp [count, hd, hp, Bool.toInt]
        · simp [count, hd]
      rw [← List.singleton_append, total_append, ih, List.singleton_append, hx, hx]
      by_cases hd : x.device = d
      · simp [total, balance, hd]
        ring
      · simp [total, hd]

/-- The numbers below a count, one entry further. -/
theorem lt_count_cons {p : sys.Tag → Obs S → Bool} {x : Entry sys D} {log : List (Entry sys D)}
    {k : ℕ} : k < count d p (x :: log) ↔
      k < count d p log ∨ x.device = d ∧ p x.tag x.obs = true ∧ k = count d p log := by
  have hcons : count d p (x :: log) =
      count d p log + if x.device = d ∧ p x.tag x.obs = true then 1 else 0 := by
    simp [count, List.countP_cons]
  by_cases hx : x.device = d ∧ p x.tag x.obs = true
  · rw [hcons, if_pos hx, Nat.lt_succ_iff_lt_or_eq]
    exact or_congr_right ⟨fun hk => ⟨hx.1, hx.2, hk⟩, fun h => h.2.2⟩
  · rw [hcons, if_neg hx, Nat.add_zero]
    exact ⟨Or.inl, fun h => h.elim id fun h => absurd ⟨h.1, h.2.1⟩ hx⟩

/-- Entries of other kinds do not count. -/
theorem count_append {p : sys.Tag → Obs S → Bool} {l log : List (Entry sys D)}
    (h : ∀ x ∈ l, p x.tag x.obs = false) : count d p (l ++ log) = count d p log := by
  rw [count, List.countP_append, List.countP_eq_zero.mpr, Nat.zero_add]
  · rfl
  · intro x hx
    simp [h x hx]

theorem count_cons {p : sys.Tag → Obs S → Bool} {x : Entry sys D} {log : List (Entry sys D)}
    (h : p x.tag x.obs = false) : count d p (x :: log) = count d p log :=
  count_append (l := [x]) fun _ hy => List.mem_singleton.mp hy ▸ h

theorem count_le {p : sys.Tag → Obs S → Bool} {log : List (Entry sys D)} :
    count d p log ≤ log.countP fun x => p x.tag x.obs := by
  refine List.countP_mono_left fun x _ hx => ?_
  simp only [Bool.and_eq_true] at hx
  exact hx.2

/-- Two devices' entries are different entries. -/
theorem count_add_le {p : sys.Tag → Obs S → Bool} {d' : D} (hd : d' ≠ d)
    (log : List (Entry sys D)) :
    count d p log + count d' p log ≤ log.countP fun x => p x.tag x.obs := by
  induction log with
  | nil => simp [count]
  | cons x log ih =>
      simp only [count, List.countP_cons, Bool.and_eq_true, decide_eq_true_eq] at ih ⊢
      by_cases hx : x.device = d
      · have hx' : x.device ≠ d' := fun h => hd (h.symm.trans hx)
        simp only [hx, hx.symm ▸ hx', true_and, false_and, if_false]
        split <;> omega
      · simp only [hx, false_and, if_false]
        split <;> split <;> first | omega | simp_all

theorem count_mono {p : sys.Tag → Obs S → Bool} {log log' : List (Entry sys D)}
    (h : log <:+ log') : count d p log ≤ count d p log' := h.sublist.countP_le

theorem count_pos {p : sys.Tag → Obs S → Bool} {log : List (Entry sys D)} :
    0 < count d p log ↔ ∃ x ∈ log, x.device = d ∧ p x.tag x.obs = true := by
  simp [count, List.countP_pos_iff]

/-- A debit under way is the first, where no more than one credit is on the
log. -/
theorem first_of_sent {debit credit : sys.Tag → Obs S → Bool} {sees : sys.Tag → S.Loc → Prop}
    (hy : (balance debit credit 1 sees : Tally sys).Generous)
    (h : ∀ d, (balance debit credit 1 sees : Tally sys).Tallied d w)
    (hone : (w.log.countP fun x => credit x.tag x.obs) ≤ 1) {m : Sent sys}
    (hm : m ∈ (w.devices d).writes) {r : Option S.Err}
    (hdebit : debit m.tag (.wrote m.write r) = true)
    (hcredit : credit m.tag (.wrote m.write r) = false) :
    ∀ x ∈ w.log, debit x.tag x.obs = false := by
  intro x hx
  by_contra hdx
  -- the one credit is on the device of the write under way
  have hd : (count d debit w.log : ℤ) + 1 ≤ count d credit w.log := by
    have hs := (h d).sent hy hm r
    rw [total_balance] at hs
    simp [balance, hdebit, hcredit] at hs
    linarith
  have hle : count d credit w.log ≤ w.log.countP fun x => credit x.tag x.obs := count_le
  have hpos : 0 < count x.device debit w.log :=
    count_pos.mpr ⟨x, hx, rfl, Bool.not_eq_false _ ▸ hdx⟩
  by_cases hxd : x.device = d
  · rw [hxd] at hpos
    omega
  · have hx' : (count x.device debit w.log : ℤ) ≤ count x.device credit w.log := by
      have hs := (h x.device).le hy
      rw [total_balance] at hs
      linarith
    have hadd := count_add_le (p := credit) hxd w.log
    omega

/-- Every entry is one of some device's. -/
theorem countP_eq_sum {p : sys.Tag → Obs S → Bool} {s : Finset D} :
    ∀ {log : List (Entry sys D)}, (∀ x ∈ log, x.device ∈ s) →
      log.countP (fun x => p x.tag x.obs) = ∑ d ∈ s, count d p log
  | [], _ => by simp [count]
  | x :: log, h => by
      have hcons : ∀ d, count d p (x :: log) =
          count d p log + if x.device = d then (p x.tag x.obs).toNat else 0 := fun d => by
        cases hp : p x.tag x.obs <;> by_cases hd : x.device = d <;> simp [count, hp, hd]
      have hone : (if p x.tag x.obs = true then 1 else 0) = (p x.tag x.obs).toNat := by
        cases p x.tag x.obs <;> rfl
      rw [List.countP_cons, countP_eq_sum fun y hy => h y (List.mem_cons_of_mem _ hy)]
      simp only [hcons, Finset.sum_add_distrib, Finset.sum_ite_eq, h x List.mem_cons_self, if_true, hone]

/-- At rest a device's log is worth at most nothing. -/
theorem Tallied.of_idle (h : y.Tallied d w) (hidle : (w.devices d).idle = true) :
    y.total d w.log ≤ 0 := by
  obtain ⟨n, ⟨⟨a, b, c, ha, hb, hc, hle⟩, -⟩, htot⟩ := h
  obtain ⟨hjobs, hwrites, hasks⟩ := Device.idle_iff.mp hidle
  rw [hjobs] at ha
  rw [hwrites] at hb
  rw [hasks] at hc
  linarith [show (0 : ℤ) ≤ a from ha, show (0 : ℤ) ≤ b from hb, show (0 : ℤ) ≤ c from hc]

/-- At rest there are as many debits as credits, where code is worth the same
both ways. -/
theorem debits_eq_credits {debit credit : sys.Tag → Obs S → Bool} {sees : sys.Tag → S.Loc → Prop}
    (h : ∀ s d, (balance debit credit s sees : Tally sys).Tallied d w) (hidle : w.Idle) :
    (w.log.countP fun x => debit x.tag x.obs) = w.log.countP fun x => credit x.tag x.obs := by
  have hone : ∀ d, count d debit w.log = count d credit w.log := fun d => by
    have hle := (h 1 d).of_idle (hidle d)
    have hge := (h (-1) d).of_idle (hidle d)
    rw [total_balance] at hle hge
    omega
  have hmem : ∀ x ∈ w.log, x.device ∈ (w.log.map (·.device)).toFinset := fun x hx =>
    List.mem_toFinset.mpr (List.mem_map_of_mem hx)
  rw [countP_eq_sum hmem, countP_eq_sum hmem]
  exact Finset.sum_congr rfl fun d _ => hone d

end Tally

end Async
