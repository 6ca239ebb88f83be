import DogVillage.Async.Run

/-!
# Writes that repeat other writes

A pair of records kept by two chained writes: the handler of the first
write issues the second, which repeats it elsewhere. A device settles its
writes, and its main thread takes up their handlers, in the order they
were issued; so the second writes of a device come in the order its first
ones were settled in, however many chains are half-done.

`Echoing` is the invariant: for every key the last repetition still due,
or what the second record holds if none is due, is what the first record
holds. Chains of one key have to stay on one device.
-/

namespace Async

variable {S : Sig}

structure Echo (sys : System S) (K V : Type) where
  /-- The key and value of a write to the first record. -/
  first : S.Write → Option (K × V)
  /-- The key and value of a write to the second record. -/
  second : S.Write → Option (K × V)
  /-- The key an action's chains are about. -/
  key : sys.Tag → Option K
  primary : sys.Srv → K → V
  replica : sys.Srv → K → V

namespace Echo

variable {sys : System S} {K V D : Type} (e : Echo sys K V)

/-! ## Code -/

/-- The code first issues the second write that is due, if one is; every
first write it comes to issue has a handler that repeats it, and nothing
else writes the second record. -/
def Follows (t : sys.Tag) : Option (K × V) → Code S → Prop
  | none, .done => True
  | none, .write w h n =>
      e.second w = none ∧ (∀ kv, e.first w = some kv → e.key t = some kv.1) ∧
        (∀ r, Follows t (e.first w) (h r)) ∧ Follows t none n
  | none, .ask _ h n => (∀ a, Follows t none (h a)) ∧ Follows t none n
  | none, .listen _ h n => (∀ a, Follows t none (h a)) ∧ Follows t none n
  | none, .global b n => Follows t none b ∧ Follows t none n
  | none, .main b n => Follows t none b ∧ Follows t none n
  | none, .env k => ∀ v, Follows t none (k v)
  | none, .get k => ∀ l, Follows t none (k l)
  | none, .modify _ n => Follows t none n
  | none, .note _ n => Follows t none n
  | some kv, .write w h n =>
      e.second w = some kv ∧ e.first w = none ∧ e.key t = some kv.1 ∧
        (∀ r, Follows t none (h r)) ∧ Follows t none n
  | some _, _ => False

/-- The second write the code begins with. -/
def next : Code S → Option (K × V)
  | .write w _ _ => e.second w
  | _ => none

variable {e} {t : sys.Tag}

theorem Follows.next : ∀ {x : Option (K × V)} {c : Code S}, e.Follows t x c → e.next c = x
  | none, .write .., h => h.1
  | some _, .write .., h => h.1
  | none, .done, _ => rfl
  | none, .ask .., _ => rfl
  | none, .listen .., _ => rfl
  | none, .global .., _ => rfl
  | none, .main .., _ => rfl
  | none, .env _, _ => rfl
  | none, .get _, _ => rfl
  | none, .modify .., _ => rfl
  | none, .note .., _ => rfl

theorem Follows.start : ∀ {x : Option (K × V)} {c : Code S} {l : S.Loc},
    e.Follows t x c → e.Follows t x (c.start l)
  | none, .done, _, _ => trivial
  | none, .write .., _, h => ⟨h.1, h.2.1, h.2.2.1, h.2.2.2.start⟩
  | some _, .write .., _, h => ⟨h.1, h.2.1, h.2.2.1, h.2.2.2.1, h.2.2.2.2.start⟩
  | none, .ask .., _, h => ⟨h.1, h.2.start⟩
  | none, .listen .., _, h => ⟨h.1, h.2.start⟩
  | none, .global .., _, h => ⟨h.1, h.2.start⟩
  | none, .main .., _, h => ⟨h.1, h.2.start⟩
  | none, .env _, _, h => fun v => (h v).start
  | none, .get _, l, h => (h l).start
  | none, .modify _ n, _, h => Follows.start (c := n) h
  | none, .note _ n, _, h => Follows.start (c := n) h

/-- Code that writes neither record. -/
theorem follows_of_writes : ∀ {c : Code S},
    c.Writes (fun w => e.first w = none ∧ e.second w = none) → e.Follows t none c
  | .done, _ => trivial
  | .write .., h =>
      ⟨h.1.2, fun _ hkv => absurd hkv (by simp [h.1.1]),
        fun r => h.1.1 ▸ follows_of_writes (h.2.1 r), follows_of_writes h.2.2⟩
  | .ask .., h => ⟨fun a => follows_of_writes (h.1 a), follows_of_writes h.2⟩
  | .listen .., h => ⟨fun a => follows_of_writes (h.1 a), follows_of_writes h.2⟩
  | .global .., h => ⟨follows_of_writes h.1, follows_of_writes h.2⟩
  | .main .., h => ⟨follows_of_writes h.1, follows_of_writes h.2⟩
  | .env _, h => fun v => follows_of_writes (h v)
  | .get _, h => fun l => follows_of_writes (h l)
  | .modify _ n, h => follows_of_writes (c := n) h
  | .note _ n, h => follows_of_writes (c := n) h

/-! ## Devices -/

variable (e)

structure Tidy (dev : Device sys) : Prop where
  main : ∀ j, dev.main = some j → ∃ x, e.Follows j.tag x j.code
  inbox : ∀ j ∈ dev.inbox, ∃ x, e.Follows j.tag x j.code
  pool : ∀ j ∈ dev.pool, e.Follows j.tag none j.code
  writes : ∀ m ∈ dev.writes,
    (∀ kv, e.first m.write = some kv ∨ e.second m.write = some kv → e.key m.tag = some kv.1) ∧
      (e.second m.write = none ∨ e.first m.write = none) ∧
      ∀ r, e.Follows m.tag (e.first m.write) (m.handler r)
  asks : ∀ m ∈ dev.asks, ∀ a, e.Follows m.tag none (m.handler a)
  listeners : ∀ m ∈ dev.listeners, ∀ a, e.Follows m.tag none (m.handler a)

/-- The repetitions due on a device, the oldest first: second writes under
way, then handlers of first writes that were settled. -/
def due (dev : Device sys) : List (K × V) :=
  dev.writes.filterMap (fun m => e.second m.write) ++
    (dev.main.toList ++ dev.inbox).filterMap fun j => e.next j.code

variable {e} {dev : Device sys} {j : Job sys}

theorem Tidy.arrive {x : Option (K × V)} (h : e.Tidy dev) (hj : e.Follows j.tag x j.code) :
    e.Tidy (dev.arrive j) ∧ e.due (dev.arrive j) = e.due dev ++ x.toList := by
  refine ⟨⟨h.main, fun i hi => ?_, h.pool, h.writes, h.asks, h.listeners⟩, ?_⟩
  · rcases List.mem_append.mp hi with hi | hi
    · exact h.inbox i hi
    · rw [List.mem_singleton.mp hi]; exact ⟨x, hj⟩
  · simp only [due, Device.arrive, List.filterMap_append, List.append_assoc]
    congr 3
    cases x <;> simp [hj.next]

theorem Tidy.begin (h : e.Tidy dev) (hmain : dev.main = none)
    (hj : e.Follows j.tag none (j.code.start dev.loc)) :
    e.Tidy (dev.begin j) ∧ e.due (dev.begin j) = e.due dev := by
  refine ⟨⟨fun i hi => ?_, h.inbox, h.pool, h.writes, h.asks, h.listeners⟩, ?_⟩
  · cases hi; exact ⟨none, hj⟩
  · simp [due, Device.begin, hmain, hj.next]

theorem Tidy.next {js : List (Job sys)} (h : e.Tidy dev) (hmain : dev.main = none)
    (hin : dev.inbox = j :: js) :
    e.Tidy ({ dev with inbox := js }.begin j) ∧
      e.due ({ dev with inbox := js }.begin j) = e.due dev := by
  obtain ⟨x, hj⟩ := h.inbox j (by rw [hin]; exact List.mem_cons_self)
  refine ⟨⟨fun i hi => ?_, fun i hi => ?_, h.pool, h.writes, h.asks, h.listeners⟩, ?_⟩
  · cases hi; exact ⟨x, hj.start⟩
  · exact h.inbox i (by rw [hin]; exact List.mem_cons_of_mem _ hi)
  · simp [due, Device.begin, hmain, hin, List.filterMap_cons, hj.next, hj.start.next]

/-- The oldest write is settled. -/
theorem Tidy.settle {m : Sent sys} {ms : List (Sent sys)} (h : e.Tidy dev)
    (hw : dev.writes = m :: ms) :
    e.Tidy { dev with writes := ms } ∧
      e.due dev = (e.second m.write).toList ++ e.due { dev with writes := ms } := by
  refine ⟨⟨h.main, h.inbox, h.pool, fun n hn => ?_, h.asks, h.listeners⟩, ?_⟩
  · exact h.writes n (by rw [hw]; exact List.mem_cons_of_mem _ hn)
  · simp only [due, hw, List.filterMap_cons]
    cases e.second m.write <;> rfl

/-- One statement. A second write that was due as the block's next write is
now due as a write under way. -/
theorem Tidy.exec {x : Option (K × V)} {v : S.Env} {srv : sys.Srv} {c : Code S} {r : Turn sys}
    (h : e.Tidy dev) (hc : e.Follows t x c) (hexec : exec t v srv dev c = some r) :
    e.Tidy r.device ∧ e.Follows t none r.code ∧
      r.device.writes.filterMap (fun m => e.second m.write) =
        dev.writes.filterMap (fun m => e.second m.write) ++ x.toList ∧
      r.device.inbox.filterMap (fun j => e.next j.code) =
        dev.inbox.filterMap (fun j => e.next j.code) := by
  cases c with
  | done => cases hexec
  | write w hd n =>
      cases hexec
      have hw : (∀ kv, e.first w = some kv ∨ e.second w = some kv → e.key t = some kv.1) ∧
          (e.second w = none ∨ e.first w = none) ∧
          (∀ r, e.Follows t (e.first w) (hd r)) ∧ e.second w = x ∧ e.Follows t none n := by
        cases x with
        | none =>
            refine ⟨fun kv hkv => ?_, Or.inl hc.1, hc.2.2.1, hc.1, hc.2.2.2⟩
            rcases hkv with hkv | hkv
            · exact hc.2.1 kv hkv
            · rw [hc.1] at hkv; cases hkv
        | some kv =>
            refine ⟨fun kv' hkv => ?_, Or.inr hc.2.1, fun r => ?_, hc.1, hc.2.2.2.2⟩
            · rcases hkv with hkv | hkv
              · rw [hc.2.1] at hkv; cases hkv
              · rw [hc.1] at hkv; cases hkv; exact hc.2.2.1
            · rw [hc.2.1]; exact hc.2.2.2.1 r
      refine ⟨⟨h.main, h.inbox, h.pool, fun m hm => ?_, h.asks, h.listeners⟩, hw.2.2.2.2, ?_, rfl⟩
      · rcases List.mem_append.mp hm with hm | hm
        · exact h.writes m hm
        · rw [List.mem_singleton.mp hm]; exact ⟨hw.1, hw.2.1, hw.2.2.1⟩
      · rw [List.filterMap_append, ← hw.2.2.2.1]
        cases hs : e.second w <;> simp [hs]
  | ask q hd n =>
      cases hexec
      cases x with
      | some kv => exact hc.elim
      | none =>
          refine ⟨{ h with asks := fun m hm => ?_ }, hc.2, by simp, rfl⟩
          rcases List.mem_append.mp hm with hm | hm
          · exact h.asks m hm
          · rw [List.mem_singleton.mp hm]; exact hc.1
  | listen q hd n =>
      cases hexec
      cases x with
      | some kv => exact hc.elim
      | none =>
          refine ⟨{ h with listeners := fun m hm => ?_ }, hc.2, by simp, rfl⟩
          rcases List.mem_append.mp hm with hm | hm
          · exact h.listeners m hm
          · rw [List.mem_singleton.mp hm]; exact hc.1
  | global b n =>
      cases hexec
      cases x with
      | some kv => exact hc.elim
      | none =>
          refine ⟨{ h with pool := fun j hj => ?_ }, hc.2, by simp, rfl⟩
          rcases List.mem_append.mp hj with hj | hj
          · exact h.pool j hj
          · rw [List.mem_singleton.mp hj]; exact hc.1
  | main b n =>
      cases hexec
      cases x with
      | some kv => exact hc.elim
      | none =>
          refine ⟨{ h with inbox := fun j hj => ?_ }, hc.2, by simp, by simp [hc.1.next]⟩
          rcases List.mem_append.mp hj with hj | hj
          · exact h.inbox j hj
          · rw [List.mem_singleton.mp hj]; exact ⟨none, hc.1⟩
  | env k =>
      obtain ⟨_, -, rfl⟩ := Option.map_eq_some_iff.mp hexec
      cases x with
      | some kv => exact hc.elim
      | none => exact ⟨h, hc v, by simp, rfl⟩
  | get k =>
      cases hexec
      cases x with
      | some kv => exact hc.elim
      | none => exact ⟨h, hc _, by simp, rfl⟩
  | modify f n =>
      cases hexec
      cases x with
      | some kv => exact hc.elim
      | none => exact ⟨⟨h.main, h.inbox, h.pool, h.writes, h.asks, h.listeners⟩, hc, by simp, rfl⟩
  | note k n =>
      cases hexec
      cases x with
      | some kv => exact hc.elim
      | none => exact ⟨h, hc, by simp, rfl⟩

/-- A block is taken out, runs one statement and is put back. -/
theorem Tidy.run {s : Slot} {v : S.Env} {srv : sys.Srv} {c : Code S} {r : Turn sys}
    {dev' : Device sys} (h : e.Tidy dev) (htake : dev.take s = some (⟨t, c⟩, dev'))
    (hexec : Async.exec t v srv dev' c = some r) :
    e.Tidy (r.device.back ⟨t, r.code⟩ s) ∧
      e.due (r.device.back ⟨t, r.code⟩ s) = e.due dev := by
  have hmain := exec_main hexec
  cases s with
  | main =>
      obtain ⟨hj, rfl⟩ := Device.take_main htake
      obtain ⟨x, hc⟩ := h.main _ hj
      have h' : e.Tidy { dev with main := none } := { h with main := fun _ hj => by cases hj }
      obtain ⟨ht, hcode, hw, hin⟩ := h'.exec hc hexec
      refine ⟨{ ht with main := fun j hj => ?_ }, ?_⟩
      · cases hj; exact ⟨none, hcode⟩
      · simp only [due, Device.back, List.filterMap_append, hw, hin, hj, Option.toList_some,
          List.filterMap_cons, hcode.next, hc.next, List.filterMap_nil, List.append_assoc]
        cases x <;> rfl
  | pool i =>
      obtain ⟨hi, rfl⟩ := Device.take_pool htake
      have hc := h.pool _ (List.mem_of_getElem? hi)
      have h' : e.Tidy { dev with pool := dev.pool.eraseIdx i } :=
        { h with pool := fun j hj => h.pool j (List.mem_of_mem_eraseIdx hj) }
      obtain ⟨ht, hcode, hw, hin⟩ := h'.exec hc hexec
      refine ⟨{ ht with pool := fun j hj => ?_ }, ?_⟩
      · rcases List.mem_append.mp hj with hj | hj
        · exact ht.pool j hj
        · rw [List.mem_singleton.mp hj]; exact hcode
      · simp only [due, Device.back, List.filterMap_append, hw, hin, hmain, Option.toList_none,
          List.append_nil]

/-- A block that is done is taken out. -/
theorem Tidy.finish {s : Slot} {dev' : Device sys} (h : e.Tidy dev)
    (htake : dev.take s = some (⟨t, .done⟩, dev')) : e.Tidy dev' ∧ e.due dev' = e.due dev := by
  cases s with
  | main =>
      obtain ⟨hj, rfl⟩ := Device.take_main htake
      exact ⟨{ h with main := fun _ hj => by cases hj }, by simp [due, hj, Echo.next]⟩
  | pool i =>
      obtain ⟨-, rfl⟩ := Device.take_pool htake
      exact ⟨{ h with pool := fun j hj => h.pool j (List.mem_of_mem_eraseIdx hj) }, rfl⟩

/-- What is due stems from something on the device. -/
theorem Tidy.mem_due (h : e.Tidy dev) {kv : K × V} (hkv : kv ∈ e.due dev) :
    ∃ t ∈ dev.tags, e.key t = some kv.1 := by
  have block : ∀ j, (dev.main = some j ∨ j ∈ dev.inbox) → e.next j.code = some kv →
      ∃ t ∈ dev.tags, e.key t = some kv.1 := by
    intro j hj hn
    have hf : ∃ x, e.Follows j.tag x j.code := hj.elim (h.main j) (h.inbox j)
    obtain ⟨x, hx⟩ := hf
    refine ⟨j.tag, Device.mem_tags.mpr (Or.inl ⟨j, ?_, rfl⟩), ?_⟩
    · rcases hj with hj | hj
      · simp [Device.jobs, hj]
      · simp [Device.jobs, hj]
    · rw [hx.next] at hn
      subst hn
      cases hc : j.code <;> rw [hc] at hx
      case write => exact hx.2.2.1
      all_goals exact hx.elim
  rcases List.mem_append.mp hkv with hkv | hkv
  · obtain ⟨m, hm, hs⟩ := List.mem_filterMap.mp hkv
    exact ⟨m.tag, Device.mem_tags.mpr (Or.inr (Or.inl ⟨m, hm, rfl⟩)),
      (h.writes m hm).1 kv (Or.inr hs)⟩
  · obtain ⟨j, hj, hn⟩ := List.mem_filterMap.mp hkv
    exact block j ((List.mem_append.mp hj).imp_left fun h => by simpa using h) hn

/-! ## Worlds -/

variable [DecidableEq D] {w w' : World sys D} {ev : Event sys D}

/-- A step changes what is due on a device only by settling a write. -/
theorem due_step (h : ∀ d, e.Tidy (w.devices d)) (hs : Stepped w ev w')
    (hact : ∀ d a, ev = .act d a → e.Follows (sys.ui a (w.devices d).loc).1 none
      ((sys.ui a (w.devices d).loc).2.start (w.devices d).loc)) (d : D) :
    e.Tidy (w'.devices d) ∧
      ((e.due (w'.devices d) = e.due (w.devices d) ∧ ∀ fail, ev ≠ .commit d fail) ∨
        ∃ fail m ms l, ev = .commit d fail ∧ (w.devices d).writes = m :: ms ∧
          e.due (w.devices d) = (e.second m.write).toList ++ l ∧
          e.due (w'.devices d) = l ++ (e.first m.write).toList) := by
  -- a step leaves the other devices alone
  have key : ∀ {d' : D} {srv : sys.Srv} {dev : Device sys} {t : sys.Tag} {obs : List (Obs S)},
      w' = w.put d' srv dev t obs → ev.device = d' →
      (d' = d → e.Tidy dev ∧ ((e.due dev = e.due (w.devices d) ∧ ∀ fail, ev ≠ .commit d fail) ∨
        ∃ fail m ms l, ev = .commit d fail ∧ (w.devices d).writes = m :: ms ∧
          e.due (w.devices d) = (e.second m.write).toList ++ l ∧
          e.due dev = l ++ (e.first m.write).toList)) →
      e.Tidy (w'.devices d) ∧
        ((e.due (w'.devices d) = e.due (w.devices d) ∧ ∀ fail, ev ≠ .commit d fail) ∨
          ∃ fail m ms l, ev = .commit d fail ∧ (w.devices d).writes = m :: ms ∧
            e.due (w.devices d) = (e.second m.write).toList ++ l ∧
            e.due (w'.devices d) = l ++ (e.first m.write).toList) := by
    intro d' srv dev t obs hw hev hdev
    by_cases hd : d' = d
    · subst hd
      rw [hw, World.put_device]
      exact hdev rfl
    · rw [hw, World.put_device_ne w (Ne.symm hd)]
      refine ⟨h d, Or.inl ⟨rfl, ?_⟩⟩
      rintro fail rfl
      exact hd hev.symm
  cases hs with
  | @act d' a hmain =>
      refine key rfl rfl ?_
      rintro rfl
      obtain ⟨ht, hdue⟩ := (h d').begin (j := ⟨_, _⟩) hmain (hact d' a rfl)
      exact ⟨ht, Or.inl ⟨hdue, by simp⟩⟩
  | @next d' j js hmain hin =>
      refine key rfl rfl ?_
      rintro rfl
      obtain ⟨ht, hdue⟩ := (h d').next hmain hin
      exact ⟨ht, Or.inl ⟨hdue, by simp⟩⟩
  | @finish d' s v t dev htake =>
      refine key rfl rfl ?_
      rintro rfl
      obtain ⟨ht, hdue⟩ := (h d').finish htake
      exact ⟨ht, Or.inl ⟨hdue, by simp⟩⟩
  | @run d' s v t c dev r htake hexec =>
      refine key rfl rfl ?_
      rintro rfl
      obtain ⟨ht, hdue⟩ := (h d').run htake hexec
      exact ⟨ht, Or.inl ⟨hdue, by simp⟩⟩
  | @commit d' fail m ms hw =>
      refine key rfl rfl ?_
      rintro rfl
      obtain ⟨ht, hdue⟩ := (h d').settle hw
      have hm := ((h d').writes m (by rw [hw]; exact List.mem_cons_self)).2.2
      obtain ⟨ht', hdue'⟩ := ht.arrive (j := ⟨m.tag, m.handler _⟩) (hm _)
      exact ⟨ht', Or.inr ⟨fail, m, ms, _, rfl, hw, hdue, hdue'⟩⟩
  | @answer d' i c m a srv hi hv =>
      refine key rfl rfl ?_
      rintro rfl
      have hm := (h d').asks m (List.mem_of_getElem? hi) a
      have ht : e.Tidy { w.devices d' with asks := (w.devices d').asks.eraseIdx i } :=
        { h d' with asks := fun n hn => (h d').asks n (List.mem_of_mem_eraseIdx hn) }
      obtain ⟨ht', hdue⟩ := ht.arrive (j := ⟨m.tag, m.handler a⟩) hm
      exact ⟨ht', Or.inl ⟨by simpa [due] using hdue, by simp⟩⟩
  | @notify d' i c m a srv hi hv =>
      refine key rfl rfl ?_
      rintro rfl
      have hm := (h d').listeners m (List.mem_of_getElem? hi) a
      obtain ⟨ht', hdue⟩ := (h d').arrive (j := ⟨m.tag, m.handler a⟩) hm
      exact ⟨ht', Or.inl ⟨by simpa using hdue, by simp⟩⟩

/-! ## The invariant -/

variable [DecidableEq K]

/-- The values for one key, in order. -/
def valuesOf (k : K) (l : List (K × V)) : List V :=
  l.filterMap fun kv => if kv.1 = k then some kv.2 else none

@[simp] theorem valuesOf_append (k : K) (l l' : List (K × V)) :
    valuesOf k (l ++ l') = valuesOf k l ++ valuesOf k l' := List.filterMap_append

theorem valuesOf_eq_nil {k : K} {l : List (K × V)} (h : ∀ kv ∈ l, kv.1 ≠ k) :
    valuesOf k l = [] :=
  List.filterMap_eq_nil_iff.mpr fun kv hkv => if_neg (h kv hkv)

theorem getLastD_append (l l' : List V) (a : V) :
    (l ++ l').getLastD a = l'.getLastD (l.getLastD a) := by
  induction l generalizing a with
  | nil => rfl
  | cons b l ih => rw [List.cons_append, List.getLastD_cons, List.getLastD_cons, ih]

variable (e)

/-- The values due for one key on a device. -/
def dueFor (k : K) (dev : Device sys) : List V := valuesOf k (e.due dev)

/-- Chains of one key are on one device. -/
def Exclusive (w : World sys D) : Prop :=
  ∀ d d' t t' k, w.Active d t → w.Active d' t' → e.key t = some k → e.key t' = some k → d = d'

structure Echoing (w : World sys D) : Prop where
  tidy : ∀ d, e.Tidy (w.devices d)
  /-- If `l` is all that is due for `k`, its last value is the first record's. -/
  agree : ∀ k l, (∀ d, e.dueFor k (w.devices d) = [] ∨ e.dueFor k (w.devices d) = l) →
    (l = [] ∨ ∃ d, e.dueFor k (w.devices d) = l) →
    l.getLastD (e.replica w.server k) = e.primary w.server k

variable {e}

omit [DecidableEq D] in
/-- While a chain of `k` is on `d`, nothing is due for `k` elsewhere. -/
theorem Echoing.elsewhere (h : e.Echoing w) (hex : e.Exclusive w) {d d' : D} {t : sys.Tag} {k : K}
    (ht : w.Active d t) (hk : e.key t = some k) (hd : d' ≠ d) :
    e.dueFor k (w.devices d') = [] := by
  refine valuesOf_eq_nil fun kv hkv hkv' => ?_
  obtain ⟨t', ht', hk'⟩ := (h.tidy d').mem_due hkv
  rw [hkv'] at hk'
  exact hd (hex d' d t' t k ht' ht hk' hk)

/-- The writes a chain of `k` settles, the repetitions due after it in between:
what is due before and after leads to the same value. -/
theorem Echoing.commit {d : D} {m : Sent sys} {ms : List (Sent sys)}
    {rest : List (K × V)} {k : K} {l : List V} (h : e.Echoing w) (hex : e.Exclusive w)
    (hw : (w.devices d).writes = m :: ms) (hkey : e.key m.tag = some k)
    (hold : e.due (w.devices d) = (e.second m.write).toList ++ rest)
    (hnew : e.due (w'.devices d) = rest ++ (e.first m.write).toList)
    (hsame : ∀ d', d' ≠ d → w'.devices d' = w.devices d')
    (hl : ∀ d, e.dueFor k (w'.devices d) = [] ∨ e.dueFor k (w'.devices d) = l)
    (hl' : l = [] ∨ ∃ d, e.dueFor k (w'.devices d) = l) :
    l.getLastD ((valuesOf k (e.second m.write).toList).getLastD (e.replica w.server k)) =
      (valuesOf k (e.first m.write).toList).getLastD (e.primary w.server k) := by
  have hactive : w.Active d m.tag :=
    Device.mem_tags.mpr (Or.inr (Or.inl ⟨m, by rw [hw]; exact List.mem_cons_self, rfl⟩))
  have hnil : ∀ d', d' ≠ d → e.dueFor k (w.devices d') = [] := fun d' hd' =>
    h.elsewhere hex hactive hkey hd'
  have hl'' : l = e.dueFor k (w'.devices d) := by
    rcases hl d with hd | hd
    · rcases hl' with rfl | ⟨d', rfl⟩
      · exact hd.symm
      · by_cases hdd : d' = d
        · rw [hdd]
        · rw [hsame d' hdd, hnil d' hdd, hd]
    · exact hd.symm
  have hall : (e.dueFor k (w.devices d)).getLastD (e.replica w.server k) =
      e.primary w.server k := by
    refine h.agree k _ (fun d' => ?_) (Or.inr ⟨d, rfl⟩)
    by_cases hdd : d' = d
    · exact Or.inr (by rw [hdd])
    · exact Or.inl (hnil d' hdd)
  rw [dueFor, hold, valuesOf_append, getLastD_append] at hall
  rw [hl'', dueFor, hnew, valuesOf_append, getLastD_append, hall]

theorem Echoing.step (h : e.Echoing w) (hex : e.Exclusive w) (hs : Stepped w ev w')
    (hact : ∀ d a, ev = .act d a → e.Follows (sys.ui a (w.devices d).loc).1 none
      ((sys.ui a (w.devices d).loc).2.start (w.devices d).loc))
    (hcommit : ∀ d fail m ms k, ev = .commit d fail → (w.devices d).writes = m :: ms →
      e.primary w'.server k =
          (valuesOf k (e.first m.write).toList).getLastD (e.primary w.server k) ∧
        e.replica w'.server k =
          (valuesOf k (e.second m.write).toList).getLastD (e.replica w.server k))
    (hother : (∀ d fail, ev ≠ .commit d fail) → ∀ k,
      e.primary w'.server k = e.primary w.server k ∧
        e.replica w'.server k = e.replica w.server k) :
    e.Echoing w' := by
  have hdue := due_step h.tidy hs hact
  refine ⟨fun d => (hdue d).1, fun k l hl hl' => ?_⟩
  -- where the step settles nothing for `k`, what is due for `k` stays
  have stay : (∀ d, e.dueFor k (w'.devices d) = e.dueFor k (w.devices d)) →
      e.primary w'.server k = e.primary w.server k →
      e.replica w'.server k = e.replica w.server k →
      l.getLastD (e.replica w'.server k) = e.primary w'.server k := by
    intro heq hp hr
    simp only [heq] at hl hl'
    rw [hp, hr]
    exact h.agree k l hl hl'
  by_cases hc : ∃ d fail, ev = .commit d fail
  · obtain ⟨d, fail, rfl⟩ := hc
    rcases (hdue d).2 with ⟨-, hne⟩ | ⟨_, m, ms, rest, -, hw, hold, hnew⟩
    · exact absurd rfl (hne fail)
    have hm := ((h.tidy d).writes m (by rw [hw]; exact List.mem_cons_self)).1
    have hsame : ∀ d', d' ≠ d → w'.devices d' = w.devices d' := by
      intro d' hd'
      cases hs
      exact World.put_device_ne w hd' _ _ _ _
    obtain ⟨hp, hr⟩ := hcommit d fail m ms k rfl hw
    by_cases hkey : e.key m.tag = some k
    · rw [hp, hr]
      exact h.commit hex hw hkey hold hnew hsame hl hl'
    · have hnil : ∀ x : Option (K × V), (∀ kv, x = some kv → e.key m.tag = some kv.1) →
          valuesOf k x.toList = [] := by
        intro x hx
        refine valuesOf_eq_nil fun kv hkv hk => hkey ?_
        rw [hx kv (by simpa using hkv), hk]
      have hf := hnil _ fun kv hkv => hm kv (Or.inl hkv)
      have hsec := hnil _ fun kv hkv => hm kv (Or.inr hkv)
      rw [hf] at hp
      rw [hsec] at hr
      refine stay (fun d' => ?_) hp hr
      by_cases hdd : d' = d
      · rw [hdd, dueFor, dueFor, hold, hnew, valuesOf_append, valuesOf_append, hf, hsec]
        simp
      · rw [hsame d' hdd]
  · have hne : ∀ d fail, ev ≠ .commit d fail := fun d fail he => hc ⟨d, fail, he⟩
    refine stay (fun d => ?_) (hother hne k).1 (hother hne k).2
    rcases (hdue d).2 with ⟨heq, -⟩ | ⟨fail, _, _, _, he, -⟩
    · rw [dueFor, dueFor, heq]
    · exact absurd he (hne d fail)

omit [DecidableEq D] in
/-- With nothing due for a key the two records agree on it. -/
theorem Echoing.settled (h : e.Echoing w) {k : K} (hk : ∀ d, e.dueFor k (w.devices d) = []) :
    e.replica w.server k = e.primary w.server k :=
  h.agree k [] (fun d => Or.inl (hk d)) (Or.inl rfl)

end Echo

end Async
