import DogVillage.Async.Code
import Mathlib.Logic.Function.Basic
import Mathlib.Data.List.Perm.Basic

/-!
# Runs of many clients over one store

The interleaving semantics of `Code`. A world is the server's state and,
for every device, its memory and what is outstanding there: the block
the main thread is running, the main thread's queue (`inbox`, first in
first out), the blocks on the concurrent queue (`pool`), the writes the
server has not answered yet (`writes`, answered in issue order), the
other calls (`asks`, answered in any order) and the `listeners`.

Every event is one atomic step: a user action, the main thread taking up
the next block, one statement of a running block, the server settling a
device's oldest write, or its answer to one call. Which event comes next,
and whether a call fails, is free: a theorem about every `Run` is a
theorem about every interleaving and every choice of failures.

What is outstanding carries the `Tag` of the user action it stems from;
the tags and the `log` are a record kept for the statements and have no
effect on the run.
-/

namespace Async

/-- The remote side and the user interface of a client. -/
structure System (S : Sig) where
  Srv : Type
  Tag : Type
  Action : Type
  /-- How a call that is not a write turns out, as far as the server's
  state leaves it open. -/
  Choice : Type
  apply : S.Write → Srv → Except S.Err Srv
  serve : (q : S.Ask) → Choice → Srv → Option (S.Ans q × Srv)
  /-- May `v` be handed out? (Identifiers are handed out once.) -/
  supply : S.Env → Srv → Option Srv
  ui : Action → S.Loc → Tag × Code S

/-- What the log records. -/
inductive Obs (S : Sig) : Type
  | acted
  | issued (w : S.Write)
  | wrote (w : S.Write) (r : Option S.Err)
  | answered (q : S.Ask) (a : S.Ans q)
  | supplied (v : S.Env)
  | noted (n : S.Note)
  | changed (f : S.Loc → S.Loc)

section

variable {S : Sig} (sys : System S)

structure Job where
  tag : sys.Tag
  code : Code S

structure Sent where
  tag : sys.Tag
  write : S.Write
  handler : Option S.Err → Code S

structure Asked where
  tag : sys.Tag
  q : S.Ask
  handler : S.Ans q → Code S

structure Device where
  loc : S.Loc
  main : Option (Job sys) := none
  inbox : List (Job sys) := []
  pool : List (Job sys) := []
  writes : List (Sent sys) := []
  asks : List (Asked sys) := []
  listeners : List (Asked sys) := []

structure Entry (D : Type) where
  device : D
  tag : sys.Tag
  obs : Obs S

structure World (D : Type) where
  server : sys.Srv
  devices : D → Device sys
  log : List (Entry sys D) := []

/-- Where a running block stands: on the main thread, or at index `i` of
the concurrent queue. -/
inductive Slot
  | main
  | pool (i : Nat)

inductive Event (D : Type) : Type
  | act (d : D) (a : sys.Action)
  | next (d : D)
  | run (d : D) (s : Slot) (v : S.Env)
  | commit (d : D) (fail : Option S.Err)
  | answer (d : D) (i : Nat) (c : sys.Choice)
  | notify (d : D) (i : Nat) (c : sys.Choice)

/-- The device an event happens on. -/
def Event.device {sys : System S} {D : Type} : Event sys D → D
  | act d _ => d
  | next d => d
  | run d _ _ => d
  | commit d _ => d
  | answer d _ _ => d
  | notify d _ _ => d

/-- What one statement leaves behind. -/
structure Turn where
  code : Code S
  server : sys.Srv
  device : Device sys
  obs : List (Obs S)

end

variable {S : Sig} {sys : System S} {D : Type}

/-! ## One statement -/

def exec (t : sys.Tag) (v : S.Env) (srv : sys.Srv) (dev : Device sys) :
    Code S → Option (Turn sys)
  | .done => none
  | .write w h n =>
      some ⟨n, srv, { dev with writes := dev.writes ++ [⟨t, w, h⟩] }, [.issued w]⟩
  | .ask q h n => some ⟨n, srv, { dev with asks := dev.asks ++ [⟨t, q, h⟩] }, []⟩
  | .listen q h n =>
      some ⟨n, srv, { dev with listeners := dev.listeners ++ [⟨t, q, h⟩] }, []⟩
  | .global b n => some ⟨n, srv, { dev with pool := dev.pool ++ [⟨t, b⟩] }, []⟩
  | .main b n => some ⟨n, srv, { dev with inbox := dev.inbox ++ [⟨t, b⟩] }, []⟩
  | .env k => (sys.supply v srv).map fun srv' => ⟨k v, srv', dev, [.supplied v]⟩
  | .get k => some ⟨k dev.loc, srv, dev, []⟩
  | .modify f n => some ⟨n, srv, { dev with loc := f dev.loc }, [.changed f]⟩
  | .note m n => some ⟨n, srv, dev, [.noted m]⟩

/-- The server settles a write: refused with `fail`, or carried out
unless the store itself refuses it. -/
def settle (sys : System S) (w : S.Write) (fail : Option S.Err) (srv : sys.Srv) :
    sys.Srv × Option S.Err :=
  match fail with
  | some e => (srv, some e)
  | none =>
      match sys.apply w srv with
      | .ok srv' => (srv', none)
      | .error e => (srv, some e)

namespace Device

/-- Take the running block out of its slot. -/
def take (dev : Device sys) : Slot → Option (Job sys × Device sys)
  | .main => dev.main.map fun j => (j, { dev with main := none })
  | .pool i => dev.pool[i]?.map fun j => (j, { dev with pool := dev.pool.eraseIdx i })

/-- Put what is left of a block back. -/
def back (dev : Device sys) (j : Job sys) : Slot → Device sys
  | .main => { dev with main := some j }
  | .pool _ => { dev with pool := dev.pool ++ [j] }

/-- The main thread takes up a block. -/
def begin (dev : Device sys) (j : Job sys) : Device sys :=
  { dev with main := some ⟨j.tag, j.code.start dev.loc⟩ }

/-- A block arrives on the main thread's queue. -/
def arrive (dev : Device sys) (j : Job sys) : Device sys :=
  { dev with inbox := dev.inbox ++ [j] }

/-- Nothing outstanding. Listeners stay attached for good and do not count. -/
def idle (dev : Device sys) : Bool :=
  dev.main.isNone && dev.inbox.isEmpty && dev.pool.isEmpty
    && dev.writes.isEmpty && dev.asks.isEmpty

/-- The blocks that are running or queued. -/
def jobs (dev : Device sys) : List (Job sys) :=
  dev.main.toList ++ dev.inbox ++ dev.pool

/-- The tags of everything held on the device. -/
def tags (dev : Device sys) : List sys.Tag :=
  dev.jobs.map (·.tag) ++ dev.writes.map (·.tag) ++ dev.asks.map (·.tag)
    ++ dev.listeners.map (·.tag)

end Device

/-! ## One event -/

section

variable [DecidableEq D]

def World.put (w : World sys D) (d : D) (srv : sys.Srv) (dev : Device sys)
    (t : sys.Tag) (obs : List (Obs S)) : World sys D where
  server := srv
  devices := Function.update w.devices d dev
  log := obs.map (⟨d, t, ·⟩) ++ w.log

@[simp] theorem World.put_device (w : World sys D) (d : D) (srv : sys.Srv) (dev : Device sys)
    (t : sys.Tag) (obs : List (Obs S)) : (w.put d srv dev t obs).devices d = dev := by
  simp [World.put]

theorem World.put_device_ne (w : World sys D) {d d' : D} (h : d' ≠ d) (srv : sys.Srv)
    (dev : Device sys) (t : sys.Tag) (obs : List (Obs S)) :
    (w.put d srv dev t obs).devices d' = w.devices d' := by
  simp [World.put, Function.update_of_ne h]

def step (w : World sys D) : Event sys D → Option (World sys D)
  | .act d a =>
      let dev := w.devices d
      let (t, c) := sys.ui a dev.loc
      match dev.main with
      | some _ => none
      | none => some (w.put d w.server (dev.begin ⟨t, c⟩) t [.acted])
  | .next d =>
      let dev := w.devices d
      match dev.main, dev.inbox with
      | none, j :: js => some (w.put d w.server ({ dev with inbox := js }.begin j) j.tag [])
      | _, _ => none
  | .run d s v =>
      match (w.devices d).take s with
      | none => none
      | some (⟨t, .done⟩, dev) => some (w.put d w.server dev t [])
      | some (⟨t, c⟩, dev) =>
          (exec t v w.server dev c).map fun r =>
            w.put d r.server (r.device.back ⟨t, r.code⟩ s) t r.obs
  | .commit d fail =>
      let dev := w.devices d
      match dev.writes with
      | [] => none
      | m :: ms =>
          let (srv, r) := settle sys m.write fail w.server
          some (w.put d srv ({ dev with writes := ms }.arrive ⟨m.tag, m.handler r⟩) m.tag
            [.wrote m.write r])
  | .answer d i c =>
      let dev := w.devices d
      match dev.asks[i]? with
      | none => none
      | some m =>
          (sys.serve m.q c w.server).map fun (a, srv) =>
            w.put d srv ({ dev with asks := dev.asks.eraseIdx i }.arrive ⟨m.tag, m.handler a⟩)
              m.tag [.answered m.q a]
  | .notify d i c =>
      let dev := w.devices d
      match dev.listeners[i]? with
      | none => none
      | some m =>
          (sys.serve m.q c w.server).map fun (a, srv) =>
            w.put d srv (dev.arrive ⟨m.tag, m.handler a⟩) m.tag [.answered m.q a]

/-- What a step can do, event by event. -/
inductive Stepped (w : World sys D) : Event sys D → World sys D → Prop
  | act {d a} (hmain : (w.devices d).main = none) :
      Stepped w (.act d a)
        (w.put d w.server
          ((w.devices d).begin ⟨(sys.ui a (w.devices d).loc).1, (sys.ui a (w.devices d).loc).2⟩)
          (sys.ui a (w.devices d).loc).1 [.acted])
  | next {d j js} (hmain : (w.devices d).main = none) (hin : (w.devices d).inbox = j :: js) :
      Stepped w (.next d)
        (w.put d w.server ({ w.devices d with inbox := js }.begin j) j.tag [])
  | finish {d s v t dev} (htake : (w.devices d).take s = some (⟨t, .done⟩, dev)) :
      Stepped w (.run d s v) (w.put d w.server dev t [])
  | run {d s v t c dev r} (htake : (w.devices d).take s = some (⟨t, c⟩, dev))
      (hexec : exec t v w.server dev c = some r) :
      Stepped w (.run d s v) (w.put d r.server (r.device.back ⟨t, r.code⟩ s) t r.obs)
  | commit {d fail m ms} (hw : (w.devices d).writes = m :: ms) :
      Stepped w (.commit d fail)
        (w.put d (settle sys m.write fail w.server).1
          ({ w.devices d with writes := ms }.arrive
            ⟨m.tag, m.handler (settle sys m.write fail w.server).2⟩) m.tag
          [.wrote m.write (settle sys m.write fail w.server).2])
  | answer {d i c m a srv} (hi : (w.devices d).asks[i]? = some m)
      (hs : sys.serve m.q c w.server = some (a, srv)) :
      Stepped w (.answer d i c)
        (w.put d srv ({ w.devices d with asks := (w.devices d).asks.eraseIdx i }.arrive
          ⟨m.tag, m.handler a⟩) m.tag [.answered m.q a])
  | notify {d i c m a srv} (hi : (w.devices d).listeners[i]? = some m)
      (hs : sys.serve m.q c w.server = some (a, srv)) :
      Stepped w (.notify d i c)
        (w.put d srv ((w.devices d).arrive ⟨m.tag, m.handler a⟩) m.tag [.answered m.q a])

theorem stepped_of_step {w w' : World sys D} {e : Event sys D} (h : step w e = some w') :
    Stepped w e w' := by
  cases e with
  | act d a =>
      simp only [step] at h
      split at h
      · cases h
      · next hmain => cases h; exact .act hmain
  | next d =>
      simp only [step] at h
      split at h
      · next j js hmain hin => cases h; exact .next hmain hin
      · cases h
  | run d s v =>
      simp only [step] at h
      split at h
      · cases h
      · next t dev htake => cases h; exact .finish htake
      · next t c dev hne htake =>
          obtain ⟨r, hr, rfl⟩ := Option.map_eq_some_iff.mp h
          exact .run htake hr
  | commit d fail =>
      simp only [step] at h
      split at h
      · cases h
      · next m ms hw => cases h; exact .commit hw
  | answer d i c =>
      simp only [step] at h
      split at h
      · cases h
      · next m hi =>
          obtain ⟨⟨a, srv⟩, hs, rfl⟩ := Option.map_eq_some_iff.mp h
          exact .answer hi hs
  | notify d i c =>
      simp only [step] at h
      split at h
      · cases h
      · next m hi =>
          obtain ⟨⟨a, srv⟩, hs, rfl⟩ := Option.map_eq_some_iff.mp h
          exact .notify hi hs

/-- The first of a device's writes can be settled at any time. -/
theorem step_commit {w : World sys D} {d : D} {m : Sent sys} {ms : List (Sent sys)}
    (fail : Option S.Err) (hw : (w.devices d).writes = m :: ms) :
    ∃ w', step w (.commit d fail) = some w' ∧ (w'.devices d).writes = ms ∧
      w'.log = ⟨d, m.tag, .wrote m.write (settle sys m.write fail w.server).2⟩ :: w.log := by
  have hstep : step w (.commit d fail) = some (w.put d (settle sys m.write fail w.server).1
      ({ w.devices d with writes := ms }.arrive
        ⟨m.tag, m.handler (settle sys m.write fail w.server).2⟩) m.tag
      [.wrote m.write (settle sys m.write fail w.server).2]) := by
    simp only [step, hw]
  refine ⟨_, hstep, ?_, rfl⟩
  rw [World.put_device]
  rfl

/-! ## Runs -/

/-- The worlds reached from `w₀` by steps that meet `ok`, a condition on
the world before the step and the event. -/
inductive Run (ok : World sys D → Event sys D → Prop) (w₀ : World sys D) :
    World sys D → Prop
  | refl : Run ok w₀ w₀
  | step {w w' e} : Run ok w₀ w → ok w e → step w e = some w' → Run ok w₀ w'

/-- An invariant of every allowed step holds in every world reached. -/
theorem Run.inv {ok : World sys D → Event sys D → Prop} {w₀ w : World sys D}
    (I : World sys D → Prop) (h0 : I w₀)
    (hs : ∀ w e w', I w → ok w e → Stepped w e w' → I w') (h : Run ok w₀ w) : I w := by
  induction h with
  | refl => exact h0
  | step _ hok hstep ih => exact hs _ _ _ ih hok (stepped_of_step hstep)

theorem Run.mono {ok ok' : World sys D → Event sys D → Prop} {w₀ w : World sys D}
    (hle : ∀ w e, ok w e → ok' w e) (h : Run ok w₀ w) : Run ok' w₀ w := by
  induction h with
  | refl => exact .refl
  | step _ hok hstep ih => exact .step ih (hle _ _ hok) hstep

theorem Run.trans {ok : World sys D → Event sys D → Prop} {w₀ w₁ w : World sys D}
    (h : Run ok w₀ w₁) (h' : Run ok w₁ w) : Run ok w₀ w := by
  induction h' with
  | refl => exact h
  | step _ hok hstep ih => exact .step ih hok hstep

/-- Nothing outstanding anywhere. -/
def World.Idle (w : World sys D) : Prop := ∀ d, (w.devices d).idle = true

/-- Something outstanding, or a listener, stems from an action tagged `t`. -/
def World.Active (w : World sys D) (d : D) (t : sys.Tag) : Prop := t ∈ (w.devices d).tags

/-- Whatever is outstanding on the device, or a listener, only comes to
issue writes that meet `P`, or has issued such a write. -/
structure Device.Writes (P : S.Write → Prop) (dev : Device sys) : Prop where
  jobs : ∀ j ∈ dev.jobs, j.code.Writes P
  writes : ∀ m ∈ dev.writes, P m.write ∧ ∀ r, (m.handler r).Writes P
  asks : ∀ m ∈ dev.asks, ∀ a, (m.handler a).Writes P
  listeners : ∀ m ∈ dev.listeners, ∀ a, (m.handler a).Writes P

theorem Device.Writes.mono {P Q : S.Write → Prop} {dev : Device sys} (hPQ : ∀ w, P w → Q w)
    (h : dev.Writes P) : dev.Writes Q where
  jobs j hj := (h.jobs j hj).mono hPQ
  writes m hm := ⟨hPQ _ (h.writes m hm).1, fun r => ((h.writes m hm).2 r).mono hPQ⟩
  asks m hm a := (h.asks m hm a).mono hPQ
  listeners m hm a := (h.listeners m hm a).mono hPQ

end

/-! ## What is outstanding, before and after a step -/

namespace Device

variable {dev dev' : Device sys} {j : Job sys} {s : Slot}

theorem take_main (h : dev.take .main = some (j, dev')) :
    dev.main = some j ∧ dev' = { dev with main := none } := by
  simp only [take, Option.map_eq_some_iff, Prod.mk.injEq] at h
  obtain ⟨_, hm, rfl, rfl⟩ := h
  exact ⟨hm, rfl⟩

theorem take_pool {i : Nat} (h : dev.take (.pool i) = some (j, dev')) :
    dev.pool[i]? = some j ∧ dev' = { dev with pool := dev.pool.eraseIdx i } := by
  simp only [take, Option.map_eq_some_iff, Prod.mk.injEq] at h
  obtain ⟨_, hm, rfl, rfl⟩ := h
  exact ⟨hm, rfl⟩

/-- Taking a block out moves it to the front and touches nothing else. -/
theorem take_jobs (h : dev.take s = some (j, dev')) : dev.jobs.Perm (j :: dev'.jobs) := by
  cases s with
  | main =>
      obtain ⟨hm, rfl⟩ := take_main h
      simp [jobs, hm]
  | pool i =>
      obtain ⟨hi, rfl⟩ := take_pool h
      obtain ⟨hlt, rfl⟩ := List.getElem?_eq_some_iff.mp hi
      have hp : dev.pool.Perm (dev.pool[i] :: dev.pool.eraseIdx i) :=
        (List.getElem_cons_eraseIdx_perm hlt).symm
      simp only [jobs]
      exact ((List.Perm.append_left _ hp).trans List.perm_middle)

theorem take_writes (h : dev.take s = some (j, dev')) : dev'.writes = dev.writes := by
  cases s with
  | main => obtain ⟨-, rfl⟩ := take_main h; rfl
  | pool i => obtain ⟨-, rfl⟩ := take_pool h; rfl

theorem take_asks (h : dev.take s = some (j, dev')) : dev'.asks = dev.asks := by
  cases s with
  | main => obtain ⟨-, rfl⟩ := take_main h; rfl
  | pool i => obtain ⟨-, rfl⟩ := take_pool h; rfl

theorem take_listeners (h : dev.take s = some (j, dev')) :
    dev'.listeners = dev.listeners := by
  cases s with
  | main => obtain ⟨-, rfl⟩ := take_main h; rfl
  | pool i => obtain ⟨-, rfl⟩ := take_pool h; rfl

theorem take_loc (h : dev.take s = some (j, dev')) : dev'.loc = dev.loc := by
  cases s with
  | main => obtain ⟨-, rfl⟩ := take_main h; rfl
  | pool i => obtain ⟨-, rfl⟩ := take_pool h; rfl

/-- After a block of the main thread was taken out the slot is free. -/
theorem take_free (h : dev.take s = some (j, dev')) : s = .main → dev'.main = none := by
  rintro rfl
  obtain ⟨-, rfl⟩ := take_main h
  rfl

@[simp] theorem back_writes : (dev.back j s).writes = dev.writes := by cases s <;> rfl
@[simp] theorem back_asks : (dev.back j s).asks = dev.asks := by cases s <;> rfl
@[simp] theorem back_listeners : (dev.back j s).listeners = dev.listeners := by
  cases s <;> rfl
@[simp] theorem back_loc : (dev.back j s).loc = dev.loc := by cases s <;> rfl

theorem back_jobs (hfree : s = .main → dev.main = none) :
    (dev.back j s).jobs.Perm (j :: dev.jobs) := by
  cases s with
  | main => simp [back, jobs, hfree rfl]
  | pool i =>
      simp only [back, jobs, ← List.append_assoc]
      exact List.perm_append_singleton _ _

theorem begin_jobs (hmain : dev.main = none) :
    (dev.begin j).jobs = ⟨j.tag, j.code.start dev.loc⟩ :: dev.jobs := by
  simp [begin, jobs, hmain]

theorem next_jobs {js : List (Job sys)} (hmain : dev.main = none)
    (hin : dev.inbox = j :: js) : dev.jobs = j :: jobs { dev with inbox := js } := by
  simp [jobs, hmain, hin]

theorem arrive_jobs : (dev.arrive j).jobs.Perm (j :: dev.jobs) := by
  simp only [jobs, arrive, List.append_assoc, List.singleton_append]
  rw [← List.append_assoc, ← List.append_assoc]
  exact List.perm_middle

theorem mem_jobs_arrive {i : Job sys} : i ∈ (dev.arrive j).jobs ↔ i = j ∨ i ∈ dev.jobs := by
  rw [arrive_jobs.mem_iff, List.mem_cons]

theorem idle_iff : dev.idle = true ↔
    dev.jobs = [] ∧ dev.writes = [] ∧ dev.asks = [] := by
  simp [idle, jobs, and_assoc]

theorem Writes.of_idle {P : S.Write → Prop} (h : dev.idle = true) (hl : dev.listeners = []) :
    dev.Writes P := by
  obtain ⟨hjobs, hwrites, hasks⟩ := idle_iff.mp h
  constructor <;> simp [hjobs, hwrites, hasks, hl]

end Device

theorem Device.mem_tags {dev : Device sys} {t : sys.Tag} : t ∈ dev.tags ↔
    (∃ j ∈ dev.jobs, j.tag = t) ∨ (∃ m ∈ dev.writes, m.tag = t) ∨
      (∃ m ∈ dev.asks, m.tag = t) ∨ ∃ m ∈ dev.listeners, m.tag = t := by
  simp only [tags, List.mem_append, List.mem_map, or_assoc]

/-- The tags before a block is taken out: its own and the others. -/
theorem Device.take_tags {dev dev' : Device sys} {j : Job sys} {s : Slot} {t : sys.Tag}
    (h : dev.take s = some (j, dev')) (ht : t = j.tag ∨ t ∈ dev'.tags) : t ∈ dev.tags := by
  have hp := take_jobs h
  rw [mem_tags] at ht ⊢
  rw [take_writes h, take_asks h, take_listeners h] at ht
  rcases ht with rfl | ⟨i, hi, rfl⟩ | ht
  · exact Or.inl ⟨j, hp.symm.subset List.mem_cons_self, rfl⟩
  · exact Or.inl ⟨i, hp.symm.subset (List.mem_cons_of_mem _ hi), rfl⟩
  · exact Or.inr ht

theorem Device.back_tags {dev : Device sys} {j : Job sys} {s : Slot} {t : sys.Tag}
    (hfree : s = .main → dev.main = none) (ht : t ∈ (dev.back j s).tags) :
    t = j.tag ∨ t ∈ dev.tags := by
  rw [mem_tags] at ht ⊢
  rw [back_writes, back_asks, back_listeners] at ht
  rcases ht with ⟨i, hi, rfl⟩ | ht
  · rcases List.mem_cons.mp ((back_jobs hfree).subset hi) with rfl | hi
    · exact Or.inl rfl
    · exact Or.inr (Or.inl ⟨i, hi, rfl⟩)
  · exact Or.inr (Or.inr ht)

/-- What a statement adds to the device carries its own tag. -/
theorem exec_tags {t t' : sys.Tag} {v : S.Env} {srv : sys.Srv} {dev : Device sys} {c : Code S}
    {r : Turn sys} (h : exec t v srv dev c = some r) (ht : t' ∈ r.device.tags) :
    t' ∈ dev.tags ∨ t' = t := by
  cases c with
  | done => cases h
  | env k => obtain ⟨_, -, rfl⟩ := Option.map_eq_some_iff.mp h; exact Or.inl ht
  | get k => cases h; exact Or.inl ht
  | modify f n => cases h; exact Or.inl ht
  | note m n => cases h; exact Or.inl ht
  | _ =>
      cases h
      simp only [Device.tags, Device.jobs, List.map_append, List.mem_append, List.map_cons,
        List.map_nil, List.mem_singleton] at ht ⊢
      tauto

/-- A statement settles no write and answers no call. -/
theorem exec_obs {t : sys.Tag} {v : S.Env} {srv : sys.Srv} {dev : Device sys} {c : Code S}
    {r : Turn sys} (h : exec t v srv dev c = some r) {o : Obs S} (ho : o ∈ r.obs) :
    (∀ {wr : S.Write} {res : Option S.Err}, o ≠ .wrote wr res) ∧
      ∀ {q : S.Ask} {a : S.Ans q}, o ≠ .answered q a := by
  constructor <;> rintro _ _ rfl <;> cases c with
  | done => cases h
  | env k => obtain ⟨_, -, rfl⟩ := Option.map_eq_some_iff.mp h; simp at ho
  | _ => cases h; simp at ho

/-- A statement changes the running blocks only by adding to the queues. -/
theorem exec_main {t : sys.Tag} {v : S.Env} {srv : sys.Srv} {dev : Device sys}
    {c : Code S} {r : Turn sys} (h : exec t v srv dev c = some r) :
    r.device.main = dev.main := by
  cases c with
  | done => cases h
  | env k =>
      obtain ⟨_, -, rfl⟩ := Option.map_eq_some_iff.mp h
      rfl
  | _ => cases h; rfl

/-! ## What an event is about -/

section

variable [DecidableEq D]

/-- The tag whose turn an event is, and the memory it runs in. -/
inductive Event.Turns (w : World sys D) : Event sys D → D → sys.Tag → Prop
  | next {d j js} (hin : (w.devices d).inbox = j :: js) : Turns w (.next d) d j.tag
  | run {d s v j dev} (htake : (w.devices d).take s = some (j, dev)) :
      Turns w (.run d s v) d j.tag

/-- The block an event runs, or takes up. -/
inductive Event.Takes (w : World sys D) : Event sys D → D → Job sys → Prop
  | next {d j js} (hin : (w.devices d).inbox = j :: js) : Takes w (.next d) d j
  | run {d s v j dev} (htake : (w.devices d).take s = some (j, dev)) : Takes w (.run d s v) d j

/-- An event that issues a write. -/
inductive Event.Issues (w : World sys D) : Event sys D → D → sys.Tag → S.Write → Prop
  | run {d s v t wr h n dev} (htake : (w.devices d).take s = some (⟨t, .write wr h n⟩, dev)) :
      Issues w (.run d s v) d t wr

/-- An event that hands out a value. -/
inductive Event.Supplies (w : World sys D) : Event sys D → D → sys.Tag → S.Env → Prop
  | run {d s v t k dev srv} (htake : (w.devices d).take s = some (⟨t, .env k⟩, dev))
      (hs : sys.supply v w.server = some srv) : Supplies w (.run d s v) d t v

/-- What an answer to an outstanding call came from. -/
inductive Event.Answers (w : World sys D) : Event sys D → D → sys.Tag →
    (q : S.Ask) → S.Ans q → sys.Srv → Prop
  | answer {d i c m a srv} (hi : (w.devices d).asks[i]? = some m)
      (hs : sys.serve m.q c w.server = some (a, srv)) :
      Answers w (.answer d i c) d m.tag m.q a srv
  | notify {d i c m a srv} (hi : (w.devices d).listeners[i]? = some m)
      (hs : sys.serve m.q c w.server = some (a, srv)) :
      Answers w (.notify d i c) d m.tag m.q a srv

variable {w w' : World sys D} {e : Event sys D} {d : D} {t : sys.Tag}

theorem Stepped.log (hs : Stepped w e w') : w.log <:+ w'.log := by
  cases hs <;> exact List.suffix_append _ _

theorem Run.log {ok : World sys D → Event sys D → Prop} {w₀ : World sys D}
    (h : Run ok w₀ w) : w₀.log <:+ w.log := by
  induction h with
  | refl => exact List.suffix_rfl
  | step _ _ hstep ih => exact ih.trans (stepped_of_step hstep).log

/-- Every step of a run is taken from a world of that run, whose log the
last one continues. -/
theorem Run.along {ok : World sys D → Event sys D → Prop} {w₀ w : World sys D}
    (h : Run ok w₀ w) : Run (fun w' e => ok w' e ∧ Run ok w₀ w' ∧ w'.log <:+ w.log) w₀ w := by
  induction h with
  | refl => exact .refl
  | step hrun hok hstep ih =>
      have hlog := (stepped_of_step hstep).log
      exact .step (ih.mono fun _ _ h => ⟨h.1, h.2.1, h.2.2.trans hlog⟩) ⟨hok, hrun, hlog⟩ hstep

/-- An invariant that may speak of the log the run ends with. -/
theorem Run.inv_within {ok : World sys D → Event sys D → Prop} {w₀ w : World sys D}
    (I : World sys D → Prop) (h0 : I w₀) (h : Run ok w₀ w)
    (hs : ∀ w₁ e w₂, Run ok w₀ w₁ → I w₁ → ok w₁ e → Stepped w₁ e w₂ → w₂.log <:+ w.log → I w₂) :
    I w := by
  suffices ∀ {w₁}, Run ok w₀ w₁ → w₁.log <:+ w.log → I w₁ from this h List.suffix_rfl
  intro w₁ h₁
  induction h₁ with
  | refl => exact fun _ => h0
  | step hrun hok hstep ih =>
      intro hlog
      have hstepped := stepped_of_step hstep
      exact hs _ _ _ hrun (ih (hstepped.log.trans hlog)) hok hstepped hlog

/-- What is active after a step was before, or is the action just taken. -/
theorem active_of_step (hs : Stepped w e w') (h : w'.Active d t) :
    w.Active d t ∨ ∃ a, e = .act d a ∧ t = (sys.ui a (w.devices d).loc).1 := by
  -- nothing changes on another device
  have other : ∀ {d' : D} {srv : sys.Srv} {dev : Device sys} {t' : sys.Tag}
      {obs : List (Obs S)}, w' = w.put d' srv dev t' obs →
      (t ∈ dev.tags → t ∈ (w.devices d').tags ∨
        ∃ a, e = .act d' a ∧ t = (sys.ui a (w.devices d').loc).1) →
      w.Active d t ∨ ∃ a, e = .act d a ∧ t = (sys.ui a (w.devices d).loc).1 := by
    intro d' srv dev t' obs hw hdev
    by_cases hd : d' = d
    · subst hd
      rw [World.Active, hw, World.put_device] at h
      exact hdev h
    · rw [World.Active, hw, World.put_device_ne w (Ne.symm hd)] at h
      exact Or.inl h
  cases hs with
  | @act d a hmain =>
      refine other rfl fun ht => ?_
      rw [Device.mem_tags, Device.begin_jobs hmain] at ht
      rcases ht with ⟨j, hj, rfl⟩ | ht
      · rcases List.mem_cons.mp hj with rfl | hj
        · exact Or.inr ⟨a, rfl, rfl⟩
        · exact Or.inl (Device.mem_tags.mpr (Or.inl ⟨j, hj, rfl⟩))
      · exact Or.inl (Device.mem_tags.mpr (Or.inr ht))
  | @next d j js hmain hin =>
      refine other rfl fun ht => Or.inl ?_
      rw [Device.mem_tags, Device.begin_jobs (by exact hmain)] at ht
      rw [Device.mem_tags, Device.next_jobs hmain hin]
      rcases ht with ⟨i, hi, rfl⟩ | ht
      · rcases List.mem_cons.mp hi with rfl | hi
        · exact Or.inl ⟨j, List.mem_cons_self, rfl⟩
        · exact Or.inl ⟨i, List.mem_cons_of_mem _ hi, rfl⟩
      · exact Or.inr ht
  | @finish d s v t' dev htake =>
      exact other rfl fun ht => Or.inl (Device.take_tags htake (Or.inr ht))
  | @run d s v t' c dev r htake hexec =>
      have hfree : s = .main → r.device.main = none := fun h => by
        rw [exec_main hexec]; exact Device.take_free htake h
      refine other rfl fun ht => Or.inl ?_
      rcases Device.back_tags hfree ht with rfl | ht
      · exact Device.take_tags htake (Or.inl rfl)
      · rcases exec_tags hexec ht with ht | rfl
        · exact Device.take_tags htake (Or.inr ht)
        · exact Device.take_tags htake (Or.inl rfl)
  | @commit d fail m ms hw =>
      refine other rfl fun ht => Or.inl ?_
      rw [Device.mem_tags] at ht ⊢
      rw [hw]
      rcases ht with ⟨j, hj, rfl⟩ | ⟨n, hn, rfl⟩ | ht
      · rcases Device.mem_jobs_arrive.mp hj with rfl | hj
        · exact Or.inr (Or.inl ⟨m, List.mem_cons_self, rfl⟩)
        · exact Or.inl ⟨j, hj, rfl⟩
      · exact Or.inr (Or.inl ⟨n, List.mem_cons_of_mem _ hn, rfl⟩)
      · exact Or.inr (Or.inr ht)
  | @answer d i c m a srv hi hs =>
      refine other rfl fun ht => Or.inl ?_
      rw [Device.mem_tags] at ht ⊢
      rcases ht with ⟨j, hj, rfl⟩ | ht | ⟨n, hn, rfl⟩ | ht
      · rcases Device.mem_jobs_arrive.mp hj with rfl | hj
        · exact Or.inr (Or.inr (Or.inl ⟨m, List.mem_of_getElem? hi, rfl⟩))
        · exact Or.inl ⟨j, hj, rfl⟩
      · exact Or.inr (Or.inl ht)
      · exact Or.inr (Or.inr (Or.inl ⟨n, List.mem_of_mem_eraseIdx hn, rfl⟩))
      · exact Or.inr (Or.inr (Or.inr ht))
  | @notify d i c m a srv hi hs =>
      refine other rfl fun ht => Or.inl ?_
      rw [Device.mem_tags] at ht ⊢
      rcases ht with ⟨j, hj, rfl⟩ | ht
      · rcases Device.mem_jobs_arrive.mp hj with rfl | hj
        · exact Or.inr (Or.inr (Or.inr ⟨m, List.mem_of_getElem? hi, rfl⟩))
        · exact Or.inl ⟨j, hj, rfl⟩
      · exact Or.inr ht

omit [DecidableEq D] in
theorem Event.Turns.active (h : e.Turns w d t) : w.Active d t := by
  cases h with
  | next hin =>
      refine Device.mem_tags.mpr (Or.inl ⟨_, ?_, rfl⟩)
      simp [Device.jobs, hin]
  | run htake => exact Device.take_tags htake (Or.inl rfl)

omit [DecidableEq D] in
theorem Event.Issues.active {wr : S.Write} (h : e.Issues w d t wr) : w.Active d t := by
  cases h with
  | run htake => exact Device.take_tags htake (Or.inl rfl)

omit [DecidableEq D] in
theorem active_of_sent {m : Sent sys} (hm : m ∈ (w.devices d).writes) : w.Active d m.tag :=
  Device.mem_tags.mpr (Or.inr (Or.inl ⟨m, hm, rfl⟩))

/-- A write in flight was in flight before, or has just been issued. -/
theorem sent_of_step (hs : Stepped w e w') {m : Sent sys} (hm : m ∈ (w'.devices d).writes) :
    m ∈ (w.devices d).writes ∨ e.Issues w d m.tag m.write := by
  -- nothing changes on another device
  have other : ∀ {d' : D} {srv : sys.Srv} {dev : Device sys} {t' : sys.Tag}
      {obs : List (Obs S)}, w' = w.put d' srv dev t' obs →
      (m ∈ dev.writes → m ∈ (w.devices d').writes ∨ e.Issues w d' m.tag m.write) →
      m ∈ (w.devices d).writes ∨ e.Issues w d m.tag m.write := by
    intro d' srv dev t' obs hw hdev
    by_cases hd : d' = d
    · subst hd
      rw [hw, World.put_device] at hm
      exact hdev hm
    · rw [hw, World.put_device_ne w (Ne.symm hd)] at hm
      exact Or.inl hm
  cases hs with
  | finish htake => exact other rfl fun hm => Or.inl (by rwa [Device.take_writes htake] at hm)
  | @run d' s v t' c dev r htake hexec =>
      refine other rfl fun hm => ?_
      rw [Device.back_writes] at hm
      have hold : m ∈ dev.writes → m ∈ (w.devices d').writes := fun hm => by
        rwa [Device.take_writes htake] at hm
      cases c with
      | done => cases hexec
      | write wr h n =>
          cases hexec
          rcases List.mem_append.mp hm with hm | hm
          · exact Or.inl (hold hm)
          · rw [List.mem_singleton.mp hm]
            exact Or.inr (.run htake)
      | env k =>
          obtain ⟨_, -, rfl⟩ := Option.map_eq_some_iff.mp hexec
          exact Or.inl (hold hm)
      | _ => cases hexec; exact Or.inl (hold hm)
  | commit hw =>
      refine other rfl fun hm => Or.inl ?_
      rw [hw]
      exact List.mem_cons_of_mem _ hm
  | _ => exact other rfl fun hm => Or.inl hm

/-- A write in flight stays in flight until it is settled. -/
theorem kept_or_settled (hs : Stepped w e w') {m : Sent sys} (hm : m ∈ (w.devices d).writes) :
    m ∈ (w'.devices d).writes ∨
      ∃ fail ms, e = .commit d fail ∧ (w.devices d).writes = m :: ms := by
  -- nothing changes on another device
  have other : ∀ {d' : D} {srv : sys.Srv} {dev : Device sys} {t' : sys.Tag}
      {obs : List (Obs S)}, w' = w.put d' srv dev t' obs →
      (d' = d → m ∈ dev.writes ∨ ∃ fail ms, e = .commit d fail ∧ (w.devices d).writes = m :: ms) →
      m ∈ (w'.devices d).writes ∨
        ∃ fail ms, e = .commit d fail ∧ (w.devices d).writes = m :: ms := by
    intro d' srv dev t' obs hw hdev
    by_cases hd : d' = d
    · subst hd
      rw [hw, World.put_device]
      exact hdev rfl
    · rw [hw, World.put_device_ne w (Ne.symm hd)]
      exact Or.inl hm
  cases hs with
  | finish htake =>
      refine other rfl fun hd => Or.inl ?_
      subst hd
      rwa [Device.take_writes htake]
  | @run d' s v t' c dev r htake hexec =>
      refine other rfl fun hd => Or.inl ?_
      subst hd
      rw [Device.back_writes]
      have hold : m ∈ dev.writes := by rwa [Device.take_writes htake]
      cases c with
      | done => cases hexec
      | write wr h n =>
          cases hexec
          exact List.mem_append_left _ hold
      | env k =>
          obtain ⟨_, -, rfl⟩ := Option.map_eq_some_iff.mp hexec
          exact hold
      | _ => cases hexec; exact hold
  | @commit d' fail m₀ ms hw =>
      refine other rfl fun hd => ?_
      subst hd
      rw [hw] at hm
      rcases List.mem_cons.mp hm with rfl | hm
      · exact Or.inr ⟨fail, ms, rfl, hw⟩
      · exact Or.inl hm
  | _ => exact other rfl fun hd => Or.inl (by subst hd; exact hm)

/-- A write on the log was there before, or has just been settled. -/
theorem wrote_of_step (hs : Stepped w e w') {x : Entry sys D} {wr : S.Write}
    {r : Option S.Err} (hx : x ∈ w'.log) (ho : x.obs = .wrote wr r) :
    x ∈ w.log ∨ ∃ fail m ms, e = .commit x.device fail ∧
      (w.devices x.device).writes = m :: ms ∧ m.tag = x.tag ∧ m.write = wr ∧
      (settle sys wr fail w.server).2 = r := by
  cases hs with
  | @commit d fail m ms hw =>
      rcases List.mem_cons.mp hx with rfl | hx
      · cases ho; exact Or.inr ⟨fail, m, ms, rfl, hw, rfl, rfl, rfl⟩
      · exact Or.inl hx
  | @run d s v t c dev r' htake hexec =>
      refine Or.inl ?_
      rcases List.mem_append.mp hx with hx | hx
      · obtain ⟨o, hmem, rfl⟩ := List.mem_map.mp hx
        exact absurd ho (exec_obs hexec hmem).1
      · exact hx
  | next => exact Or.inl hx
  | finish => exact Or.inl hx
  | _ =>
      rcases List.mem_cons.mp hx with rfl | hx
      · cases ho
      · exact Or.inl hx

/-- An answer on the log was there before, or has just been given: its
handler is on the main thread's queue. -/
theorem answered_of_step (hs : Stepped w e w') {x : Entry sys D} {q : S.Ask} {a : S.Ans q}
    (hx : x ∈ w'.log) (ho : x.obs = .answered q a) :
    x ∈ w.log ∨ ∃ h : S.Ans q → Code S,
      (⟨x.tag, q, h⟩ ∈ (w.devices x.device).asks ∨ ⟨x.tag, q, h⟩ ∈ (w.devices x.device).listeners) ∧
        ⟨x.tag, h a⟩ ∈ (w'.devices x.device).jobs := by
  cases hs with
  | @run d s v t c dev r htake hexec =>
      refine Or.inl ?_
      rcases List.mem_append.mp hx with hx | hx
      · obtain ⟨o, hmem, rfl⟩ := List.mem_map.mp hx
        exact absurd ho (exec_obs hexec hmem).2
      · exact hx
  | @answer d i c m a srv hi hv =>
      rcases List.mem_cons.mp hx with rfl | hx
      · cases ho
        refine Or.inr ⟨m.handler, Or.inl (List.mem_of_getElem? hi), ?_⟩
        rw [World.put_device]
        exact Device.mem_jobs_arrive.mpr (Or.inl rfl)
      · exact Or.inl hx
  | @notify d i c m a srv hi hv =>
      rcases List.mem_cons.mp hx with rfl | hx
      · cases ho
        refine Or.inr ⟨m.handler, Or.inr (List.mem_of_getElem? hi), ?_⟩
        rw [World.put_device]
        exact Device.mem_jobs_arrive.mpr (Or.inl rfl)
      · exact Or.inl hx
  | next => exact Or.inl hx
  | finish => exact Or.inl hx
  | _ =>
      rcases List.mem_cons.mp hx with rfl | hx
      · cases ho
      · exact Or.inl hx

/-- What a statement reports of itself. -/
def Obs.isOwn : Obs S → Bool
  | .acted | .wrote _ _ | .answered _ _ => false
  | .issued _ | .supplied _ | .noted _ | .changed _ => true

/-- What a step adds to the log. -/
inductive Stepped.Logs (w : World sys D) (e : Event sys D) (w' : World sys D) : Prop
  | acted {d a} (he : e = .act d a)
      (hlog : w'.log = ⟨d, (sys.ui a (w.devices d).loc).1, .acted⟩ :: w.log)
  | wrote {d fail m ms} (he : e = .commit d fail) (hw : (w.devices d).writes = m :: ms)
      (hlog : w'.log = ⟨d, m.tag, .wrote m.write (settle sys m.write fail w.server).2⟩ :: w.log)
  | answered {d t q a} (hans : e.Answers w d t q a w'.server)
      (hlog : w'.log = ⟨d, t, .answered q a⟩ :: w.log)
  | own {l} (hlog : w'.log = l ++ w.log) (hl : ∀ x ∈ l, x.obs.isOwn = true)

theorem Stepped.logs (hs : Stepped w e w') : Logs w e w' := by
  cases hs with
  | act => exact .acted rfl rfl
  | next => exact .own (l := []) rfl (by simp)
  | finish => exact .own (l := []) rfl (by simp)
  | @run d s v t c dev r htake hexec =>
      refine .own rfl fun x hx => ?_
      obtain ⟨o, ho, rfl⟩ := List.mem_map.mp hx
      cases c with
      | done => cases hexec
      | env k =>
          obtain ⟨_, -, rfl⟩ := Option.map_eq_some_iff.mp hexec
          rw [List.mem_singleton.mp ho]
          rfl
      | write => cases hexec; rw [List.mem_singleton.mp ho]; rfl
      | modify => cases hexec; rw [List.mem_singleton.mp ho]; rfl
      | note => cases hexec; rw [List.mem_singleton.mp ho]; rfl
      | _ => cases hexec; cases ho
  | commit hw => exact .wrote rfl hw rfl
  | answer hi hv => exact .answered (.answer hi hv) rfl
  | notify hi hv => exact .answered (.notify hi hv) rfl

theorem Event.Issues.log {wr : S.Write} (h : e.Issues w d t wr) (hs : Stepped w e w') :
    w'.log = ⟨d, t, .issued wr⟩ :: w.log := by
  cases h with
  | run htake =>
      cases hs with
      | finish htake' => rw [htake] at htake'; cases htake'
      | run htake' hexec => rw [htake] at htake'; cases htake'; cases hexec; rfl

theorem Event.Issues.sent {wr : S.Write} (h : e.Issues w d t wr) (hs : Stepped w e w') :
    ∃ m ∈ (w'.devices d).writes, m.tag = t ∧ m.write = wr := by
  cases h with
  | @run _ _ _ _ _ hd _ _ htake =>
      cases hs with
      | finish htake' => rw [htake] at htake'; cases htake'
      | run htake' hexec =>
          rw [htake] at htake'
          cases htake'
          cases hexec
          refine ⟨⟨t, wr, hd⟩, ?_, rfl, rfl⟩
          rw [World.put_device, Device.back_writes]
          exact List.mem_append_right _ List.mem_cons_self

theorem Event.Supplies.step {v : S.Env} (h : e.Supplies w d t v) (hs : Stepped w e w') :
    w'.log = ⟨d, t, .supplied v⟩ :: w.log ∧ sys.supply v w.server = some w'.server := by
  cases h with
  | run htake hv =>
      cases hs with
      | finish htake' => rw [htake] at htake'; cases htake'
      | run htake' hexec =>
          rw [htake] at htake'
          cases htake'
          obtain ⟨_, hv', rfl⟩ := Option.map_eq_some_iff.mp hexec
          exact ⟨rfl, hv'⟩

omit [DecidableEq D] in
/-- The call an answer is given to. -/
theorem Event.Answers.call {q : S.Ask} {a : S.Ans q} {srv : sys.Srv}
    (h : e.Answers w d t q a srv) :
    (∃ i c handler, e = .answer d i c ∧ (w.devices d).asks[i]? = some ⟨t, q, handler⟩ ∧
      sys.serve q c w.server = some (a, srv)) ∨
      ∃ handler, ⟨t, q, handler⟩ ∈ (w.devices d).listeners := by
  cases h with
  | answer hi hv => exact Or.inl ⟨_, _, _, rfl, hi, hv⟩
  | notify hi hv => exact Or.inr ⟨_, List.mem_of_getElem? hi⟩

omit [DecidableEq D] in
theorem Event.Answers.serve {q : S.Ask} {a : S.Ans q} {srv : sys.Srv}
    (h : e.Answers w d t q a srv) : ∃ c, sys.serve q c w.server = some (a, srv) := by
  cases h with
  | answer _ hv => exact ⟨_, hv⟩
  | notify _ hv => exact ⟨_, hv⟩

theorem Event.Answers.step {q : S.Ask} {a : S.Ans q} {srv : sys.Srv}
    (h : e.Answers w d t q a srv) (hs : Stepped w e w') :
    w'.log = ⟨d, t, .answered q a⟩ :: w.log ∧ w'.server = srv := by
  cases h with
  | answer hi hv =>
      cases hs with
      | answer hi' hv' =>
          rw [hi] at hi'
          cases hi'
          rw [hv] at hv'
          cases hv'
          exact ⟨rfl, rfl⟩
  | notify hi hv =>
      cases hs with
      | notify hi' hv' =>
          rw [hi] at hi'
          cases hi'
          rw [hv] at hv'
          cases hv'
          exact ⟨rfl, rfl⟩

/-- What is outstanding stems from an action that was taken. -/
theorem acted_of_active {ok : World sys D → Event sys D → Prop} {w₀ : World sys D}
    (h₀ : ∀ d t, ¬w₀.Active d t) (hrun : Run ok w₀ w) :
    w.Active d t → ∃ x ∈ w.log, x.tag = t ∧ x.obs = .acted := by
  induction hrun with
  | refl => exact fun h => absurd h (h₀ d t)
  | step _ _ hstep ih =>
      intro h
      have hs := stepped_of_step hstep
      rcases active_of_step hs h with h | ⟨a, rfl, rfl⟩
      · obtain ⟨x, hx, hacted⟩ := ih h
        exact ⟨x, hs.log.subset hx, hacted⟩
      · cases hs
        exact ⟨_, List.mem_cons_self, rfl, rfl⟩

end

end Async
