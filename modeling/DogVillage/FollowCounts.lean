import DogVillage.Async.Foresee
import DogVillage.FollowPaths
import DogVillage.Footprint
import DogVillage.OneCell

/-!
# The followers a profile shows

One account opens the profile of another. What the screen fetches replaces
its count and its flag; what its button sets off adds to them. As long as
the two do not meet, the screen shows what is stored whenever nothing is
outstanding.
-/

namespace DogVillage

open Async

/-- Whom profile screen `i` shows, whether as followed, and with how many followers. -/
def followShown (app : App) (i : Nat) : Option (Uid × Bool × Int) :=
  app.profiles[i]?.map fun screen : ProfileController =>
    (screen.user.uid, screen.user.isFollowed, screen.user.stats.followers)

/-- The followers of `b`, and `b` among those `a` follows. -/
def FollowDoc (a b : Uid) (r : Ref Collection) : Prop :=
  r.collection = .userFollowers b ∨ r = ⟨.userFollowing a, b⟩

/-- The change puts this flag and this count on the screen. -/
def Puts (i : Nat) (flag : Option Bool) (count : Option Int) (f : App → App) : Prop :=
  ∀ app, (f app).currentUser = app.currentUser ∧ followShown (f app) i =
    (followShown app i).map fun shown => (shown.1, flag.getD shown.2.1, count.getD shown.2.2)

/-- What is seen neither changes what the screen shows nor is a write of
these documents. -/
def Aside (i : Nat) (a b : Uid) : Obs sig → Prop
  | .changed f => Puts i none none f
  | .wrote wr _ => ¬FollowDoc a b wr.ref
  | _ => True

/-- What is seen belongs to a follow or an unfollow. -/
def Following (i : Nat) (a b : Uid) : Obs sig → Prop
  | .changed f => ∃ isFollowed n, f = followChange i isFollowed n
  | .wrote wr _ => FollowDoc a b wr.ref
  | _ => False

/-- The screen fetches its flag and its count. -/
def Action.Fetches (i : Nat) (act : Action) : Prop :=
  act = .profileDidLoad i ∨ act = .profileWillAppear i

/-- The header was bound after the screen last changed. -/
def Action.HeaderCurrent (app : App) (i : Nat) : Prop :=
  ∃ profile user, app.profiles[i]? = some profile ∧ profile.header = some user ∧
    user.uid = profile.user.uid ∧ user.isFollowed = profile.user.isFollowed

/-- `a` uses profile screen `i`, which shows `b`, in turns: it fetches while
no follow is under way, and its button is tapped once it shows what was
fetched and followed. Nobody else changes the followers of `b`, and nothing
fails. -/
inductive InTurns {D : Type} (d : D) (i : Nat) (a b : Uid) (w : World village D) :
    Event village D → Prop
  | fetch {act} (hact : Action.Fetches i act)
      (hquiet : (w.devices d).Quiet fun x => ¬Following i a b x) : InTurns d i a b w (.act d act)
  | tap (hquiet : (w.devices d).Quiet (Aside i a b))
      (hheader : Action.HeaderCurrent (w.devices d).loc i) :
      InTurns d i a b w (.act d (Action.tapActionButton i))
  | aside {act : Action} (h : ∀ m, Outcome (fun _ => True) (act.block.start (w.devices d).loc) m →
      ∀ x ∈ m, Aside i a b x) : InTurns d i a b w (.act d act)
  | own {e} (h : Alone d e) (hsmooth : Smooth e) : InTurns d i a b w e
  | other {e} (hd : e.device ≠ d) (h : ∀ d' fail m ms, e = .commit d' fail →
      (w.devices d').writes = m :: ms → ¬FollowDoc a b m.write.ref) : InTurns d i a b w e

/-- Profile screen `i`, of `b`, has been pushed and is about to load. -/
structure Pushed {D : Type} (d : D) (i : Nat) (a b : Uid) (w : World village D) : Prop where
  quiet : (w.devices d).Quiet (Aside i a b)
  signedIn : (w.devices d).loc.currentUser = some a
  shown : ∃ flag count, followShown (w.devices d).loc i = some (b, flag, count) ∧ 0 ≤ count
  edges : w.server.present ⟨.userFollowing a, b⟩ = w.server.present ⟨.userFollowers b, a⟩

/-- The screen shows what is stored. -/
def ShowsStored (app : App) (srv : Server) (i : Nat) (a b : Uid) : Prop :=
  followShown app i =
    some (b, srv.present ⟨.userFollowers b, a⟩, (srv.docs.count (.userFollowers b) : Int))

section

variable {D : Type} [DecidableEq D] {d : D} {i : Nat} {a b : Uid} {flag flag' : Bool}
  {n n' : Int} {w w' w₀ w₁ : World village D} {e : Event village D} {app : App}
  {srv srv' : Server} {o m : Multiset (Obs sig)} {x : Obs sig} {f : App → App}

/-! ## Changes of the screen -/

theorem Puts.comp_shown {flag? : Option Bool} {count? : Option Int} (h : Puts i flag? count? f)
    (hshown : followShown app i = some (b, flag, n)) :
    followShown (f app) i = some (b, flag?.getD flag, count?.getD n) := by
  rw [(h app).2, hshown]
  rfl

theorem puts_profiles {flag? : Option Bool} {count? : Option Int}
    {g : ProfileController → ProfileController}
    (h : ∀ screen, (g screen).user.uid = screen.user.uid ∧
      (g screen).user.isFollowed = flag?.getD screen.user.isFollowed ∧
      (g screen).user.stats.followers = count?.getD screen.user.stats.followers) :
    Puts i flag? count? fun app => { app with profiles := app.profiles.modify i g } := by
  intro app
  refine ⟨rfl, ?_⟩
  cases hi : app.profiles[i]? with
  | none => simp [followShown, hi]
  | some screen => simp [followShown, hi, h]

theorem followShown_followChange (hshown : followShown app i = some (b, flag, n)) :
    followShown (followChange i flag' n' app) i = some (b, flag', n + n') := by
  obtain ⟨screen, hi, hs⟩ := Option.map_eq_some_iff.mp hshown
  cases hs
  simp [followShown, followChange, hi, ProfileController.setFollowed]

/-! ## One step -/

/-- What the screen counts on an answer to say. -/
def Truth (a b : Uid) (flag : Bool) (n : Int) : (q : Ask) → q.Ans → Prop
  | .getDocuments q, documents =>
      q = { collection := .userFollowers b } → UserService.documentsCount documents = n
  | .getDocument r, document =>
      r = ⟨.userFollowing a, b⟩ → document.map Option.isSome = some flag
  | _, _ => True

/-- The edges are stored, and the followers are `n`. -/
structure FollowStored (srv : Server) (a b : Uid) (following follower : Bool) (n : Int) : Prop where
  following : srv.present ⟨.userFollowing a, b⟩ = following
  follower : srv.present ⟨.userFollowers b, a⟩ = follower
  count : (srv.docs.count (.userFollowers b) : Int) = n

/-- What `o`, seen of the device in one step, says about the documents. -/
structure Told (a b : Uid) (srv srv' : Server) (o : Multiset (Obs sig)) : Prop where
  kept : (∀ wr err, .wrote wr err ∈ o → ¬FollowDoc a b wr.ref) → ∀ r, FollowDoc a b r →
    srv'.docs.get r = srv.docs.get r
  marked : ∀ gone r err, o = {.wrote (markWrite gone r) err} → err = none ∧
    (∀ r', r' ≠ r → srv'.docs.get r' = srv.docs.get r') ∧
    srv'.docs.get r = if gone then none else some []
  answered : ∀ flag follower n, FollowStored srv a b flag follower n →
    ∀ q ans, .answered q ans ∈ o → Truth a b flag n q ans

theorem FollowStored.congr {following follower : Bool}
    (h : FollowStored srv a b following follower n)
    (hget : ∀ r, FollowDoc a b r → srv'.docs.get r = srv.docs.get r) :
    FollowStored srv' a b following follower n where
  following := (Server.present_congr (hget _ (Or.inr rfl))).trans h.following
  follower := (Server.present_congr (hget _ (Or.inl rfl))).trans h.follower
  count := by
    rw [← h.count]
    exact congrArg Int.ofNat (Documents.count_congr fun v => by rw [hget _ (Or.inl rfl)])

/-- A mark that was carried out. -/
theorem present_mark {gone : Bool} {r : Ref Collection}
    (h : srv'.docs.get r = if gone then none else some []) : srv'.present r = !gone := by
  have hp : srv'.present r = (srv'.docs.get r).isSome := rfl
  rw [hp, h]
  cases gone <;> rfl

theorem FollowStored.mark_following {follower : Bool} (h : FollowStored srv a b flag follower n)
    (hkept : ∀ r, r ≠ ⟨.userFollowing a, b⟩ → srv'.docs.get r = srv.docs.get r)
    (hget : srv'.docs.get ⟨.userFollowing a, b⟩ = if flag then none else some []) :
    FollowStored srv' a b (!flag) follower n where
  following := present_mark hget
  follower := (Server.present_congr (hkept _ (by simp))).trans h.follower
  count := by
    rw [← h.count]
    exact congrArg Int.ofNat (Documents.count_congr fun v => by rw [hkept _ (by simp)])

theorem FollowStored.mark_follower {following : Bool} (h : FollowStored srv a b following flag n)
    (hkept : ∀ r, r ≠ ⟨.userFollowers b, a⟩ → srv'.docs.get r = srv.docs.get r)
    (hget : srv'.docs.get ⟨.userFollowers b, a⟩ = if flag then none else some []) :
    FollowStored srv' a b following (!flag) (recount flag n) where
  following := (Server.present_congr (hkept _ (by simp))).trans h.following
  follower := present_mark hget
  count := by
    have hcount : (srv'.docs.count (.userFollowers b) : Int) =
        srv.docs.count (.userFollowers b) + if flag then -1 else 1 :=
      count_mark h.follower (present_mark hget) fun v hv =>
        Server.present_congr (hkept _ (by simpa using hv))
    rw [hcount, h.count]
    cases flag <;> simp [recount, sub_eq_add_neg]

theorem length_select (s : Documents Collection Value) (k : Collection) :
    (s.select { collection := k }).length = s.count k := by
  have hp : ((s.select { collection := k }).map Prod.fst).Perm (s.ids k) := by
    refine (List.perm_ext_iff_of_nodup (Documents.nodup_select s _)
      (Documents.nodup_ids s k)).mpr fun v => ?_
    rw [List.mem_map, Documents.mem_ids, Option.isSome_iff_exists]
    constructor
    · rintro ⟨⟨_, data⟩, hx, rfl⟩
      exact ⟨data, (Documents.mem_select.mp hx).1⟩
    · rintro ⟨data, hdata⟩
      exact ⟨(v, data), Documents.mem_select.mpr ⟨hdata, by simp [Query.selects]⟩, rfl⟩
  rw [← List.length_map, hp.length_eq, Documents.count]

theorem truth_of_serve {following follower : Bool} (h : FollowStored srv a b following follower n)
    {q : Ask} {c : Server.Choice} {ans : q.Ans} (hc : ∀ err, c ≠ .fail err)
    (hs : Server.serve q c srv = some (ans, srv')) : Truth a b following n q ans := by
  cases q with
  | getDocuments q =>
      cases c with
      | ok =>
          cases hs
          rintro rfl
          rw [← h.count, ← length_select]
          rfl
      | fail err => exact absurd rfl (hc err)
      | uid | url => cases hs
  | getDocument r =>
      cases c with
      | ok =>
          cases hs
          rintro rfl
          exact congrArg some h.following
      | fail err => exact absurd rfl (hc err)
      | uid | url => cases hs
  | _ => trivial

/-- A step of the device's own, or one of another device. -/
theorem told_of_step (hs : Stepped w e w') (ho : w'.seen d = w.seen d + o)
    (h : Alone d e ∧ Smooth e ∨ e.device ≠ d ∧ ∀ d' fail m ms, e = .commit d' fail →
      (w.devices d').writes = m :: ms → ¬FollowDoc a b m.write.ref) :
    Told a b w.server w'.server o := by
  rcases h with ⟨halone, hsmooth⟩ | ⟨hd, hother⟩
  · obtain ⟨o', ho', htr⟩ := traced_of_step hs halone hsmooth
    rw [ho, add_right_inj] at ho'
    subst ho'
    refine ⟨fun hnot r hr => htr.kept (accepted_eq_zero fun wr hwr hwrr => ?_), ?_, ?_⟩
    · exact hnot wr none hwr (hwrr ▸ hr)
    · rintro gone r err rfl
      have herr : err = none := by
        cases err with
        | none => rfl
        | some err =>
            obtain ⟨r', data, hwr, -⟩ := htr.refused _ err (Multiset.mem_singleton_self _)
            exact absurd hwr (markWrite_ne r r' data)
      subst herr
      refine ⟨rfl, fun r' hr' => htr.kept (accepted_eq_zero fun wr hwr hwrr => ?_), htr.mark
        (fun wr hwr _ => ?_) (Multiset.mem_singleton_self _)⟩
      · cases Multiset.mem_singleton.mp hwr
        exact hr' (hwrr ▸ ref_markWrite r)
      · cases Multiset.mem_singleton.mp hwr
        rfl
    · intro flag follower n hstored q ans hans
      obtain ⟨j, c, srv, rfl, hserve⟩ := hs.answered halone.2 ho hans
      exact truth_of_serve hstored (fun err hc => hsmooth.answer d j err (by rw [hc])) hserve
  · have hzero : o = 0 := by
      have hseen : w'.seen d = w.seen d := hs.seen_of_ne hd
      rw [hseen, left_eq_add] at ho
      exact ho
    subst hzero
    refine ⟨fun _ r hr => ?_, fun _ _ _ h => by simp at h, fun _ _ _ _ _ _ h => by simp at h⟩
    cases docsStep hs with
    | same hdocs _ => rw [hdocs]
    | wrote he hw _ hget =>
        rw [hget, if_neg]
        rintro rfl
        exact hother _ _ _ _ he hw hr

/-! ## Fetching -/

/-- What is seen brings the screen to what is stored. -/
def Refreshing (i : Nat) (a b : Uid) (flag : Bool) (n : Int) : Obs sig → Prop
  | .changed f => ∃ flag? count?, (∀ v ∈ flag?, v = flag) ∧ (∀ v ∈ count?, v = n) ∧
      Puts i flag? count? f
  | .wrote wr _ => ¬FollowDoc a b wr.ref
  | _ => True

/-- The flag will be put on the screen. -/
def FlagDue (i : Nat) (flag : Bool) (m : Multiset (Obs sig)) : Prop :=
  ∃ f count?, .changed f ∈ m ∧ Puts i (some flag) count? f

/-- The count will be put on the screen. -/
def CountDue (i : Nat) (n : Int) (m : Multiset (Obs sig)) : Prop :=
  ∃ f flag?, .changed f ∈ m ∧ Puts i flag? (some n) f

/-- A screen that shows `flag'` and `n'` will show `flag` and `n`. -/
structure CatchesUp (i : Nat) (a b : Uid) (flag : Bool) (n : Int) (flag' : Bool) (n' : Int)
    (m : Multiset (Obs sig)) : Prop where
  refreshing : ∀ x ∈ m, Refreshing i a b flag n x
  flag : flag' = flag ∨ FlagDue i flag m
  count : n' = n ∨ CountDue i n m

/-- Whatever is under way brings the screen to what is stored. -/
structure Refreshed (d : D) (i : Nat) (a b : Uid) (flag : Bool) (n : Int) (flag' : Bool) (n' : Int)
    (w : World village D) : Prop where
  stored : FollowStored w.server a b flag flag n
  signedIn : (w.devices d).loc.currentUser = some a
  shown : followShown (w.devices d).loc i = some (b, flag', n')
  nonneg : 0 ≤ n'
  future : (w.devices d).Foresees (Truth a b flag n) (CatchesUp i a b flag n flag' n')

theorem exists_truth (a b : Uid) (flag : Bool) (hn : 0 ≤ n) : ∀ q, ∃ ans, Truth a b flag n q ans
  | .getDocuments q => by
      obtain ⟨k, rfl⟩ := Int.eq_ofNat_of_zero_le hn
      exact ⟨some (List.replicate k ("", [])), fun _ => by simp [UserService.documentsCount]⟩
  | .getDocument r => by
      refine ⟨some (if flag then some [] else none), fun _ => ?_⟩
      cases flag <;> rfl
  | .putData .. => ⟨none, trivial⟩
  | .downloadURL _ => ⟨none, trivial⟩
  | .createUser .. => ⟨.ok "", trivial⟩
  | .signIn .. => ⟨.ok "", trivial⟩
  | .sendPasswordReset _ => ⟨none, trivial⟩
  | .deleteAccount _ => ⟨none, trivial⟩

theorem FollowStored.nonneg {following follower : Bool}
    (h : FollowStored srv a b following follower n) : 0 ≤ n := by
  rw [← h.count]
  exact Int.natCast_nonneg _

theorem FollowStored.recount_nonneg {following : Bool}
    (h : FollowStored srv a b following flag n) : 0 ≤ recount flag n := by
  have hn := h.nonneg
  have hcount := h.count
  cases flag with
  | true =>
      have hpos := count_pos_of_present h.follower
      simp only [recount, if_true]
      omega
  | false =>
      simp only [recount, Bool.false_eq_true, if_false]
      omega

omit [DecidableEq D] in
theorem Refreshed.idle (h : Refreshed d i a b flag n flag' n' w)
    (hidle : (w.devices d).idle = true) : flag' = flag ∧ n' = n := by
  have hc := h.future.of_idle hidle
  exact ⟨hc.flag.resolve_right fun ⟨_, _, h, _⟩ => by simp at h,
    hc.count.resolve_right fun ⟨_, _, h, _⟩ => by simp at h⟩

omit [DecidableEq D] in
/-- A screen that only changes for other reasons shows what is stored. -/
theorem Refreshed.quiet (h : Refreshed d i a b flag n flag' n' w)
    (hquiet : (w.devices d).Quiet (Aside i a b)) : flag' = flag ∧ n' = n := by
  obtain ⟨m, hm, -, hc⟩ := h.future.exists_future (exists_truth a b flag h.stored.nonneg)
    nonempty_env
  have hsame : ∀ {f flag? count?}, .changed f ∈ m → Puts i flag? count? f →
      flag?.getD flag' = flag' ∧ count?.getD n' = n' := by
    intro f flag? count? hf hputs
    have haside : Puts i none none f := hquiet m hm _ hf
    have heq := (hputs.comp_shown h.shown).symm.trans (haside.comp_shown h.shown)
    simpa using heq
  constructor
  · refine hc.flag.elim id fun ⟨f, _, hf, hputs⟩ => ?_
    exact (hsame hf hputs).1.symm
  · refine hc.count.elim id fun ⟨f, _, hf, hputs⟩ => ?_
    exact (hsame hf hputs).2.symm

/-- A change takes the screen nearer. -/
theorem CatchesUp.changed (h : CatchesUp i a b flag n flag' n' ({.changed f} + m))
    (hshown : followShown app i = some (b, flag', n')) (hn : 0 ≤ n) (hn' : 0 ≤ n') :
    (f app).currentUser = app.currentUser ∧ ∃ flag'' n'', 0 ≤ n'' ∧
      followShown (f app) i = some (b, flag'', n'') ∧
      ∀ m', CatchesUp i a b flag n flag' n' ({.changed f} + m') →
        CatchesUp i a b flag n flag'' n'' m' := by
  obtain ⟨flag?, count?, hflag, hcount, hputs⟩ := h.refreshing (.changed f) (by simp)
  have hmem : ∀ {g m'}, .changed g ∈ ({.changed f} + m' : Multiset (Obs sig)) →
      g = f ∨ .changed g ∈ m' := by
    intro g m' hg
    simpa using hg
  refine ⟨(hputs app).1, flag?.getD flag', count?.getD n', ?_, hputs.comp_shown hshown,
    fun m' hm' => ⟨fun x hx => ?_, ?_, ?_⟩⟩
  · cases count? with
    | none => exact hn'
    | some v => rw [hcount v rfl]; exact hn
  · exact hm'.refreshing x (Multiset.mem_add.mpr (Or.inr hx))
  · cases flag? with
    | some v => exact Or.inl (hflag v rfl)
    | none =>
        refine hm'.flag.elim Or.inl fun ⟨g, c, hg, hputs'⟩ => ?_
        rcases hmem hg with rfl | hg
        · have heq := (hputs.comp_shown hshown).symm.trans (hputs'.comp_shown hshown)
          exact Or.inl (by simpa using congrArg (fun shown => shown.map (·.2.1)) heq)
        · exact Or.inr ⟨g, c, hg, hputs'⟩
  · cases count? with
    | some v => exact Or.inl (hcount v rfl)
    | none =>
        refine hm'.count.elim Or.inl fun ⟨g, c, hg, hputs'⟩ => ?_
        rcases hmem hg with rfl | hg
        · have heq := (hputs.comp_shown hshown).symm.trans (hputs'.comp_shown hshown)
          exact Or.inl (by simpa using congrArg (fun shown => shown.map (·.2.2)) heq)
        · exact Or.inr ⟨g, c, hg, hputs'⟩

/-- More of the same does not undo it. -/
theorem CatchesUp.add (h : CatchesUp i a b flag n flag' n' m)
    (ho : ∀ x ∈ o, Refreshing i a b flag n x) : CatchesUp i a b flag n flag' n' (m + o) where
  refreshing x hx := (Multiset.mem_add.mp hx).elim (h.refreshing x) (ho x)
  flag := h.flag.imp id fun ⟨f, c, hf, hputs⟩ => ⟨f, c, Multiset.mem_add.mpr (Or.inl hf), hputs⟩
  count := h.count.imp id fun ⟨f, c, hf, hputs⟩ => ⟨f, c, Multiset.mem_add.mpr (Or.inl hf), hputs⟩

/-- What leaves the memory alone leaves as much to be done. -/
theorem CatchesUp.rest (h : CatchesUp i a b flag n flag' n' (o + m)) (ho : changes o = 0) :
    CatchesUp i a b flag n flag' n' m := by
  have hmem : ∀ {g}, .changed g ∈ o + m → .changed g ∈ m := by
    intro g hg
    refine (Multiset.mem_add.mp hg).resolve_left fun hg => ?_
    rw [← mem_changes, ho] at hg
    cases Multiset.notMem_zero _ hg
  exact ⟨fun x hx => h.refreshing x (Multiset.mem_add.mpr (Or.inr hx)),
    h.flag.imp id fun ⟨g, c, hg, hputs⟩ => ⟨g, c, hmem hg, hputs⟩,
    h.count.imp id fun ⟨g, c, hg, hputs⟩ => ⟨g, c, hmem hg, hputs⟩⟩

theorem Refreshed.step (h : Refreshed d i a b flag n flag' n' w) (hs : Stepped w e w')
    (hown : e.Own d) (ho : w'.seen d = w.seen d + o) (htold : Told a b w.server w'.server o) :
    ∃ flag'' n'', Refreshed d i a b flag n flag'' n'' w' := by
  have hfuture := h.future.step hs hown ho (htold.answered flag flag n h.stored)
  obtain ⟨m, -, -, hm⟩ := hfuture.exists_future (exists_truth a b flag h.stored.nonneg)
    nonempty_env
  have hstored : FollowStored w'.server a b flag flag n :=
    h.stored.congr (htold.kept fun wr err hwr =>
      hm.refreshing _ (Multiset.mem_add.mpr (Or.inl hwr)))
  rcases hs.loc_of_seen ho with ⟨hc, hl⟩ | ⟨f, rfl, hl⟩
  · exact ⟨flag', n', hstored, by rw [hl]; exact h.signedIn, by rw [hl]; exact h.shown, h.nonneg,
      hfuture.imp fun m hm => hm.rest hc⟩
  · obtain ⟨huser, flag'', n'', hn'', hshown, hrest⟩ := hm.changed h.shown h.stored.nonneg h.nonneg
    exact ⟨flag'', n'', hstored, by rw [hl, huser]; exact h.signedIn, by rw [hl]; exact hshown,
      hn'', hfuture.imp fun m' hm' => hrest m' hm'⟩

/-! ## What a fetch shows -/

theorem outcome_check (hsigned : app.currentUser = some a)
    (hshown : followShown app i = some (b, flag', n'))
    (h : Outcome (fun _ => True) ((ProfileController.checkIfUserIsFollowed i).start app) m)
    (ha : ∀ q ans, .answered q ans ∈ m → Truth a b flag n q ans) :
    (∀ x ∈ m, Refreshing i a b flag n x) ∧ FlagDue i flag m := by
  obtain ⟨screen, hi, hs⟩ := Option.map_eq_some_iff.mp hshown
  simp only [ProfileController.checkIfUserIsFollowed, ProfileController.get,
    UserService.checkIfUserIsFollowed, currentUid, Code.start, hi, hsigned] at h
  obtain ⟨_, _, ⟨(snapshot : Option (Option Dictionary)), _, _, h₁, rfl, rfl⟩, rfl, rfl⟩ := h
  cases hs
  have htruth : snapshot.map Option.isSome = some flag :=
    ha (.getDocument ⟨.userFollowing a, screen.user.uid⟩) snapshot (by simp) rfl
  cases snapshot with
  | none => cases htruth
  | some document =>
      obtain ⟨_, _, ⟨_, rfl, rfl⟩, rfl, rfl⟩ := h₁
      have hputs : Puts i (some flag) none fun app => { app with
          profiles := app.profiles.modify i fun screen =>
            { screen with user.isFollowed := document.isSome } } :=
        puts_profiles fun screen => ⟨rfl, Option.some.inj htruth, rfl⟩
      refine ⟨fun x hx => ?_, _, none, ?_, hputs⟩
      · simp only [add_zero, Multiset.mem_add, Multiset.mem_singleton] at hx
        rcases hx with rfl | rfl
        · trivial
        · exact ⟨some flag, none, by simp, by simp, hputs⟩
      · simp

theorem outcome_stats (hshown : followShown app i = some (b, flag', n'))
    (h : Outcome (fun _ => True) ((ProfileController.fetchUserStats i).start app) m)
    (ha : ∀ q ans, .answered q ans ∈ m → Truth a b flag n q ans) :
    (∀ x ∈ m, Refreshing i a b flag n x) ∧ CountDue i n m := by
  obtain ⟨screen, hi, hs⟩ := Option.map_eq_some_iff.mp hshown
  simp only [ProfileController.fetchUserStats, ProfileController.get,
    UserService.fetchUserState, Code.start, hi] at h
  obtain ⟨_, _, ⟨followers, _, _, ⟨following, _, _, ⟨posts, _, _, ⟨_, _, ⟨_, rfl, rfl⟩, rfl, rfl⟩,
    rfl, rfl⟩, rfl, rfl⟩, rfl, rfl⟩, rfl, rfl⟩ := h
  cases hs
  have htruth : UserService.documentsCount followers = n :=
    ha (.getDocuments { collection := .userFollowers screen.user.uid }) followers (by simp) rfl
  have hputs : Puts i none (some n) fun app => { app with
      profiles := app.profiles.modify i fun screen => { screen with
        user.stats := ⟨UserService.documentsCount followers,
          UserService.documentsCount following, UserService.documentsCount posts⟩ } } :=
    puts_profiles fun screen => ⟨rfl, rfl, htruth⟩
  refine ⟨fun x hx => ?_, _, none, ?_, hputs⟩
  · simp only [add_zero, Multiset.mem_add, Multiset.mem_singleton] at hx
    rcases hx with rfl | rfl | rfl | rfl
    · trivial
    · trivial
    · trivial
    · exact ⟨none, some n, by simp, by simp, hputs⟩
  · simp

theorem outcome_posts
    (h : Outcome (fun _ => True) ((ProfileController.fetchPost i).start app) m) :
    ∀ x ∈ m, Aside i a b x := by
  simp only [ProfileController.fetchPost, ProfileController.get, PostService.fetchPostsForUser,
    Code.start] at h
  cases hi : app.profiles[i]? with
  | none =>
      simp only [hi] at h
      rw [show m = 0 from h]
      simp
  | some screen =>
      simp only [hi] at h
      obtain ⟨_, _, ⟨(snapshot : Option (List (DocId × Dictionary))), _, _, h₁, rfl, rfl⟩, rfl,
        rfl⟩ := h
      cases snapshot with
      | none =>
          obtain rfl : _ = 0 := h₁
          simp [Aside]
      | some documents =>
          obtain ⟨v, _, ⟨_, _, ⟨_, rfl, rfl⟩, rfl, rfl⟩, rfl⟩ := h₁
          intro x hx
          simp only [add_zero, Multiset.mem_add, Multiset.mem_singleton] at hx
          rcases hx with rfl | rfl | rfl
          · trivial
          · trivial
          · exact puts_profiles fun screen => ⟨rfl, rfl, rfl⟩

theorem Aside.refreshing (h : Aside i a b x) : Refreshing i a b flag n x := by
  cases x with
  | changed f => exact ⟨none, none, by simp, by simp, h⟩
  | wrote wr err => exact h
  | _ => trivial

theorem start_viewDidLoad (hsigned : app.currentUser = some a)
    (hshown : followShown app i = some (b, flag', n')) :
    (ProfileController.viewDidLoad i).start app =
      ((ProfileController.checkIfUserIsFollowed i).start app).andThen
        (((ProfileController.fetchUserStats i).start app).andThen
          ((ProfileController.fetchPost i).start app)) := by
  obtain ⟨screen, hi, -⟩ := Option.map_eq_some_iff.mp hshown
  simp only [ProfileController.viewDidLoad, ProfileController.checkIfUserIsFollowed,
    ProfileController.fetchUserStats, ProfileController.fetchPost, ProfileController.get,
    UserService.checkIfUserIsFollowed, UserService.fetchUserState, PostService.fetchPostsForUser,
    currentUid, Code.seq_eq, Code.andThen, Code.start, hi, hsigned]

theorem start_viewWillAppear (hshown : followShown app i = some (b, flag', n')) :
    (ProfileController.viewWillAppear i).start app =
      ((ProfileController.fetchPost i).start app).andThen
        ((ProfileController.fetchUserStats i).start app) := by
  obtain ⟨screen, hi, -⟩ := Option.map_eq_some_iff.mp hshown
  simp only [ProfileController.viewWillAppear, ProfileController.fetchUserStats,
    ProfileController.fetchPost, ProfileController.get, UserService.fetchUserState,
    PostService.fetchPostsForUser, Code.seq_eq, Code.andThen, Code.start, hi]

/-- Loading a screen fetches all it shows. -/
theorem outcome_profileDidLoad (hsigned : app.currentUser = some a)
    (hshown : followShown app i = some (b, flag', n'))
    (h : Outcome (fun _ => True) ((Action.profileDidLoad i).block.start app) m)
    (ha : ∀ q ans, .answered q ans ∈ m → Truth a b flag n q ans) :
    CatchesUp i a b flag n flag' n' m := by
  rw [show (Action.profileDidLoad i).block = ProfileController.viewDidLoad i from rfl,
    start_viewDidLoad hsigned hshown] at h
  obtain ⟨m₁, _, h₁, hrest, rfl⟩ := Outcome.andThen.mp h
  obtain ⟨m₂, m₃, h₂, h₃, rfl⟩ := Outcome.andThen.mp hrest
  simp only [Multiset.mem_add] at ha
  obtain ⟨hx₁, f, c, hf, hflag⟩ := outcome_check hsigned hshown h₁ fun q ans hx =>
    ha q ans (Or.inl hx)
  obtain ⟨hx₂, g, c', hg, hcount⟩ := outcome_stats hshown h₂ fun q ans hx =>
    ha q ans (Or.inr (Or.inl hx))
  refine ⟨fun x hx => ?_, Or.inr ⟨f, c, ?_, hflag⟩, Or.inr ⟨g, c', ?_, hcount⟩⟩
  · simp only [Multiset.mem_add] at hx
    rcases hx with hx | hx | hx
    exacts [hx₁ x hx, hx₂ x hx, (outcome_posts h₃ x hx).refreshing]
  · exact Multiset.mem_add.mpr (Or.inl hf)
  · exact Multiset.mem_add.mpr (Or.inr (Multiset.mem_add.mpr (Or.inl hg)))

theorem outcome_fetch {act : Action} (hact : act.Fetches i) (hsigned : app.currentUser = some a)
    (hshown : followShown app i = some (b, flag', n'))
    (h : Outcome (fun _ => True) (act.block.start app) m)
    (ha : ∀ q ans, .answered q ans ∈ m → Truth a b flag n q ans) :
    ∀ x ∈ m, Refreshing i a b flag n x := by
  rcases hact with rfl | rfl
  · exact (outcome_profileDidLoad hsigned hshown h ha).refreshing
  · rw [show (Action.profileWillAppear i).block = ProfileController.viewWillAppear i from rfl,
      start_viewWillAppear hshown] at h
    obtain ⟨m₁, m₂, h₁, h₂, rfl⟩ := Outcome.andThen.mp h
    have hx₂ := (outcome_stats hshown h₂ fun q ans hx => ha q ans
      (Multiset.mem_add.mpr (Or.inr hx))).1
    intro x hx
    rcases Multiset.mem_add.mp hx with hx | hx
    exacts [(outcome_posts h₁ x hx).refreshing, hx₂ x hx]

/-- What is refreshing adds to what is under way. -/
theorem Refreshed.act {act : Action} (h : Refreshed d i a b flag n flag' n' w)
    (hact : Async.step w (.act d act) = some w')
    (hout : ∀ m, Outcome (fun _ => True) (act.block.start (w.devices d).loc) m →
      (∀ q ans, .answered q ans ∈ m → Truth a b flag n q ans) →
      ∀ x ∈ m, Refreshing i a b flag n x) :
    Refreshed d i a b flag n flag' n' w' := by
  obtain ⟨hsrv, -, hloc⟩ := acted hact
  refine ⟨by rw [hsrv]; exact h.stored, by rw [hloc]; exact h.signedIn,
    by rw [hloc]; exact h.shown, h.nonneg, ?_⟩
  refine (h.future.act (stepped_of_step hact) hout).imp ?_
  rintro _ ⟨m₁, m₂, h₁, h₂, rfl⟩
  rw [add_comm]
  exact h₂.add h₁

/-! ## Following -/

open Classical in
/-- What of `m` matters to the screen. -/
noncomputable def significant (i : Nat) (a b : Uid) (m : Multiset (Obs sig)) : Multiset (Obs sig) :=
  m.filter fun x => ¬Aside i a b x

/-- What a follow or an unfollow still has to show: its writes, then what
its completion does to the screen. -/
def remaining (i : Nat) (a b : Uid) (flag following follower change : Bool)
    (e₁ e₂ : Option FIRError) : Multiset (Obs sig) :=
  (if following then {.wrote (markWrite flag ⟨.userFollowing a, b⟩) e₁} else 0) +
    (if follower then {.wrote (markWrite flag ⟨.userFollowers b, a⟩) e₂} else 0) +
    if change then {.changed (followChange i (!flag) (recount flag 0))} else 0

/-- A follow or an unfollow is under way, of which these steps remain. -/
structure Switching (d : D) (i : Nat) (a b : Uid) (flag : Bool) (n : Int)
    (following follower change : Bool) (w : World village D) : Prop where
  stored : FollowStored w.server a b (if following then flag else !flag)
    (if follower then flag else !flag) (if follower then n else recount flag n)
  signedIn : (w.devices d).loc.currentUser = some a
  shown : followShown (w.devices d).loc i =
    some (b, if change then flag else !flag, if change then n else recount flag n)
  nonneg : 0 ≤ n ∧ 0 ≤ recount flag n
  future : (w.devices d).Foresees (fun _ _ => True) fun m => ∃ e₁ e₂,
    significant i a b m = remaining i a b flag following follower change e₁ e₂

open Classical in
theorem significant_add : significant i a b (o + m) = significant i a b o + significant i a b m :=
  Multiset.filter_add _ _ _

theorem significant_eq_zero : significant i a b m = 0 ↔ ∀ x ∈ m, Aside i a b x := by
  simp [significant, Multiset.filter_eq_nil]

open Classical in
theorem significant_of_not (h : ¬Aside i a b x) : significant i a b {x} = {x} :=
  (Multiset.filter_singleton _).trans (if_pos h)

open Classical in
theorem mem_significant : x ∈ significant i a b m ↔ x ∈ m ∧ ¬Aside i a b x :=
  Multiset.mem_filter

theorem mem_remaining {following follower change : Bool} {e₁ e₂ : Option FIRError} :
    x ∈ remaining i a b flag following follower change e₁ e₂ ↔
      following = true ∧ x = .wrote (markWrite flag ⟨.userFollowing a, b⟩) e₁ ∨
      follower = true ∧ x = .wrote (markWrite flag ⟨.userFollowers b, a⟩) e₂ ∨
      change = true ∧ x = .changed (followChange i (!flag) (recount flag 0)) := by
  cases following <;> cases follower <;> cases change <;> simp [remaining]

theorem following_of_remaining {following follower change : Bool} {e₁ e₂ : Option FIRError}
    (h : x ∈ remaining i a b flag following follower change e₁ e₂) : Following i a b x := by
  rcases mem_remaining.mp h with ⟨-, rfl⟩ | ⟨-, rfl⟩ | ⟨-, rfl⟩
  · exact Or.inr (ref_markWrite _)
  · exact Or.inl (by rw [ref_markWrite])
  · exact ⟨_, _, rfl⟩

omit [DecidableEq D] in
/-- A state in which nothing of it is to come any more. -/
theorem Switching.over {following follower change : Bool} {P : Obs sig → Prop}
    (h : Switching d i a b flag n following follower change w)
    (hP : ∀ x, P x → Following i a b x → Aside i a b x) (hquiet : (w.devices d).Quiet P) :
    following = false ∧ follower = false ∧ change = false := by
  obtain ⟨m, hm, -, e₁, e₂, heq⟩ := h.future.exists_future (fun q => (nonempty_ans q).elim
    fun ans => ⟨ans, trivial⟩) nonempty_env
  have hnot : ∀ x, x ∉ remaining i a b flag following follower change e₁ e₂ := by
    intro x hx
    have hmem : x ∈ significant i a b m := heq ▸ hx
    obtain ⟨hxm, hna⟩ := mem_significant.mp hmem
    exact hna (hP x (hquiet m hm x hxm) (following_of_remaining hx))
  refine ⟨?_, ?_, ?_⟩ <;> rw [← Bool.not_eq_true] <;> intro htrue
  · exact hnot _ (mem_remaining.mpr (Or.inl ⟨htrue, rfl⟩))
  · exact hnot _ (mem_remaining.mpr (Or.inr (Or.inl ⟨htrue, rfl⟩)))
  · exact hnot _ (mem_remaining.mpr (Or.inr (Or.inr ⟨htrue, rfl⟩)))

omit [DecidableEq D] in
/-- The screen then shows what is stored. -/
theorem Switching.refreshed (h : Switching d i a b flag n false false false w) :
    Refreshed d i a b (!flag) (recount flag n) (!flag) (recount flag n) w where
  stored := h.stored
  signedIn := h.signedIn
  shown := h.shown
  nonneg := h.nonneg.2
  future := h.future.mono (fun _ _ _ => trivial) fun m ⟨e₁, e₂, heq⟩ =>
    ⟨fun x hx => (significant_eq_zero.mp (by rw [heq]; rfl) x hx).refreshing, Or.inl rfl,
      Or.inl rfl⟩

/-! ### Its steps -/

section

variable {following follower change : Bool}

/-- What is aside leaves as much to be done. -/
theorem Switching.aside (h : Switching d i a b flag n following follower change w)
    (hs : Stepped w e w') (hown : e.Own d) (ho : w'.seen d = w.seen d + o)
    (htold : Told a b w.server w'.server o) (hside : ∀ x ∈ o, Aside i a b x) :
    Switching d i a b flag n following follower change w' := by
  have hfuture := h.future.step hs hown ho fun _ _ _ => trivial
  have hzero := significant_eq_zero.mpr hside
  have hkept := htold.kept fun wr err hwr => hside _ hwr
  have hrest : (w'.devices d).Foresees (fun _ _ => True) fun m => ∃ e₁ e₂,
      significant i a b m = remaining i a b flag following follower change e₁ e₂ :=
    hfuture.imp fun m hm => by simpa only [significant_add, hzero, zero_add] using hm
  rcases hs.loc_of_seen ho with ⟨-, hl⟩ | ⟨f, rfl, hl⟩
  · exact ⟨h.stored.congr hkept, by rw [hl]; exact h.signedIn, by rw [hl]; exact h.shown, h.nonneg,
      hrest⟩
  · have hputs : Puts i none none f := hside _ (Multiset.mem_singleton_self _)
    exact ⟨h.stored.congr hkept, by rw [hl, (hputs _).1]; exact h.signedIn,
      by rw [hl]; exact hputs.comp_shown h.shown, h.nonneg, hrest⟩

/-- What is shown is struck off. -/
theorem remaining_strike {e₁ e₂ : Option FIRError}
    (h : {x} + m = remaining i a b flag following follower change e₁ e₂) :
    following = true ∧ x = .wrote (markWrite flag ⟨.userFollowing a, b⟩) e₁ ∧
        m = remaining i a b flag false follower change e₁ e₂ ∨
      follower = true ∧ x = .wrote (markWrite flag ⟨.userFollowers b, a⟩) e₂ ∧
        m = remaining i a b flag following false change e₁ e₂ ∨
      change = true ∧ x = .changed (followChange i (!flag) (recount flag 0)) ∧
        m = remaining i a b flag following follower false e₁ e₂ := by
  have hx : x ∈ remaining i a b flag following follower change e₁ e₂ := by
    rw [← h]
    simp
  rcases mem_remaining.mp hx with ⟨rfl, rfl⟩ | ⟨rfl, rfl⟩ | ⟨rfl, rfl⟩
  · refine Or.inl ⟨rfl, rfl, (add_right_inj _).mp (h.trans ?_)⟩
    simp only [remaining, if_true, Bool.false_eq_true, if_false]
    abel
  · refine Or.inr (Or.inl ⟨rfl, rfl, (add_right_inj _).mp (h.trans ?_)⟩)
    simp only [remaining, if_true, Bool.false_eq_true, if_false]
    abel
  · refine Or.inr (Or.inr ⟨rfl, rfl, (add_right_inj _).mp (h.trans ?_)⟩)
    simp only [remaining, if_true, Bool.false_eq_true, if_false]
    abel

theorem markWrite_following_ne {gone gone' : Bool} :
    markWrite gone ⟨.userFollowing a, b⟩ ≠ markWrite gone' ⟨.userFollowers b, a⟩ := by
  cases gone <;> cases gone' <;> simp [markWrite]

theorem recount_eq (n : Int) : n + recount flag 0 = recount flag n := by
  cases flag <;> simp [recount, sub_eq_add_neg]

theorem Switching.step (h : Switching d i a b flag n following follower change w)
    (hs : Stepped w e w') (hown : e.Own d) (ho : w'.seen d = w.seen d + o)
    (htold : Told a b w.server w'.server o) :
    ∃ following' follower' change', Switching d i a b flag n following' follower' change' w' := by
  by_cases hside : ∀ x ∈ o, Aside i a b x
  · exact ⟨_, _, _, h.aside hs hown ho htold hside⟩
  obtain ⟨x, rfl⟩ : ∃ x, o = {x} := by
    rcases hs.seen d with hsame | ⟨x, hx⟩
    · rw [hsame, left_eq_add] at ho
      subst ho
      simp at hside
    · rw [hx, add_right_inj] at ho
      exact ⟨x, ho.symm⟩
  have hx : ¬Aside i a b x := by simpa using hside
  have hfuture := h.future.step hs hown ho fun _ _ _ => trivial
  have hstrike : (w'.devices d).Foresees (fun _ _ => True) fun m => ∃ e₁ e₂,
      {x} + significant i a b m = remaining i a b flag following follower change e₁ e₂ :=
    hfuture.imp fun m hm => by simpa only [significant_add, significant_of_not hx] using hm
  obtain ⟨m, -, -, e₁, e₂, heq⟩ := hstrike.exists_future (fun q => (nonempty_ans q).elim
    fun ans => ⟨ans, trivial⟩) nonempty_env
  have hloc : ∀ wr err, x = .wrote wr err → (w'.devices d).loc = (w.devices d).loc := by
    rintro wr err rfl
    rcases hs.loc_of_seen ho with ⟨-, hl⟩ | ⟨f, hf, -⟩
    · exact hl
    · cases Multiset.singleton_inj.mp hf
  rcases remaining_strike heq with ⟨rfl, rfl, -⟩ | ⟨rfl, rfl, -⟩ | ⟨rfl, rfl, -⟩
  · obtain ⟨rfl, hkept, hget⟩ := htold.marked _ _ _ rfl
    refine ⟨false, follower, change, h.stored.mark_following hkept hget, ?_, ?_, h.nonneg,
      hstrike.imp ?_⟩
    · rw [hloc _ _ rfl]; exact h.signedIn
    · rw [hloc _ _ rfl]; exact h.shown
    · rintro m ⟨e₁, e₂, heq⟩
      rcases remaining_strike heq with ⟨-, -, hm⟩ | ⟨-, hx, -⟩ | ⟨-, hx, -⟩
      · exact ⟨e₁, e₂, hm⟩
      · exact absurd (Obs.wrote.inj hx).1 markWrite_following_ne
      · cases hx
  · obtain ⟨rfl, hkept, hget⟩ := htold.marked _ _ _ rfl
    refine ⟨following, false, change, h.stored.mark_follower hkept hget, ?_, ?_, h.nonneg,
      hstrike.imp ?_⟩
    · rw [hloc _ _ rfl]; exact h.signedIn
    · rw [hloc _ _ rfl]; exact h.shown
    · rintro m ⟨e₁, e₂, heq⟩
      rcases remaining_strike heq with ⟨-, hx, -⟩ | ⟨-, -, hm⟩ | ⟨-, hx, -⟩
      · exact absurd (Obs.wrote.inj hx).1.symm markWrite_following_ne
      · exact ⟨e₁, e₂, hm⟩
      · cases hx
  · obtain ⟨f, hf, hl⟩ := (hs.loc_of_seen ho).resolve_left fun h => by simp at h
    cases Multiset.singleton_inj.mp hf
    have hkept := htold.kept fun wr err hwr => by simp at hwr
    refine ⟨following, follower, false, h.stored.congr hkept, ?_, ?_, h.nonneg, hstrike.imp ?_⟩
    · rw [hl]; exact h.signedIn
    · rw [hl, followShown_followChange h.shown]
      simp only [if_true, Bool.false_eq_true, if_false, recount_eq]
    · rintro m ⟨e₁, e₂, heq⟩
      rcases remaining_strike heq with ⟨-, hx, -⟩ | ⟨-, hx, -⟩ | ⟨-, -, hm⟩
      · cases hx
      · cases hx
      · exact ⟨e₁, e₂, hm⟩

end

/-! ### The tap that starts it -/

/-- Besides the change of the screen, a completion notifies and brings the
feed up to date. -/
theorem outcome_onEdge_significant {user currentUser : User} {err : Option FIRError}
    (h : Outcome (fun _ => True) (onEdge i flag user currentUser err) m) :
    ∃ m', m = {.changed (followChange i (!flag) (recount flag 0))} + m' ∧
      ∀ x ∈ m', Aside i a b x := by
  have aside : ∀ {c : Block} {m : Multiset (Obs sig)}, Outcome (fun _ => True) c m → c.Still →
      Touches (fun k => (∀ u, k ≠ .userFollowers u) ∧ ∀ u, k ≠ .userFollowing u) c →
      ∀ x ∈ m, Aside i a b x := by
    intro c m hc hstill htouches x hx
    have hunder : c.Under (fun _ => True) (fun _ _ => True) fun x => ∀ (wr : Write) err,
        x = .wrote wr err → ¬FollowDoc a b wr.ref := by
      refine htouches.under (fun wr hwr => ⟨by simp, fun err wr' err' heq => ?_⟩) (by simp)
        (by simp) (by simp) (by simp)
      cases heq
      rintro (hr | hr)
      · exact hwr.1 _ hr
      · exact hwr.2 a (by rw [hr])
    cases x with
    | changed f =>
        have hnone : f ∈ changes m := mem_changes.mpr hx
        rw [hc.still hstill] at hnone
        cases Multiset.notMem_zero _ hnone
    | wrote wr err => exact hunder.outcome hc (fun _ _ _ => trivial) _ hx wr err rfl
    | _ => trivial
  cases flag with
  | true =>
      obtain ⟨m', hm', rfl⟩ := h
      exact ⟨m', rfl, aside hm' still_updateUserFeedAfterFollowing
        (touches_updateUserFeedAfterFollowing fun _ => ⟨by simp, by simp⟩)⟩
  | false =>
      obtain ⟨m', hm', rfl⟩ := h
      have hm' : Outcome (fun _ => True)
          (NotificationService.uploadFollowNotification user.uid currentUser .follow >>
            PostService.updateUserFeedAfterFollowing user true) m' := hm'
      exact ⟨m', rfl, aside hm' (still_updateUserFeedAfterFollowing.andThen
        still_uploadFollowNotification) (Touches.andThen
          (touches_uploadFollowNotification ⟨by simp, by simp⟩)
          (touches_updateUserFeedAfterFollowing fun _ => ⟨by simp, by simp⟩))⟩

/-- A change of the count is none the screen makes for other reasons. -/
theorem not_aside_followChange (hshown : followShown app i = some (b, flag, n)) :
    ¬Aside i a b (.changed (followChange i (!flag) n')) := by
  intro h
  have hputs : Puts i none none (followChange i (!flag) n') := h
  have heq := (followShown_followChange hshown).symm.trans (hputs.comp_shown hshown)
  simp at heq

theorem significant_edgeWrites {user currentUser : User}
    (hshown : followShown app i = some (b, flag, n))
    (h : Outcome (fun _ => True) (edgeWrites flag a b (onEdge i flag user currentUser)) m) :
    ∃ e₁ e₂, significant i a b m = remaining i a b flag true true true e₁ e₂ := by
  obtain ⟨e₁, e₂, _, hm, rfl⟩ := outcome_edgeWrites h
  obtain ⟨m', rfl, hside⟩ := outcome_onEdge_significant (a := a) (b := b) hm
  have hissued : ∀ wr, significant i a b {.issued wr} = 0 := fun wr =>
    significant_eq_zero.mpr (by simp [Aside])
  refine ⟨e₁, e₂, ?_⟩
  rw [edgeObs]
  simp only [Multiset.insert_eq_cons, ← Multiset.singleton_add, significant_add, hissued,
    significant_eq_zero.mpr hside, significant_of_not (not_aside_followChange hshown),
    significant_of_not (show ¬Aside i a b (.wrote (markWrite flag ⟨.userFollowing a, b⟩) e₁) from
      fun h => h (Or.inr (ref_markWrite _))),
    significant_of_not (show ¬Aside i a b (.wrote (markWrite flag ⟨.userFollowers b, a⟩) e₂) from
      fun h => h (Or.inl (by rw [ref_markWrite]))), remaining, if_true]
  abel

/-- A tap does nothing, or starts what its header says. -/
theorem Refreshed.tap (h : Refreshed d i a b flag n flag n w)
    (hquiet : (w.devices d).Quiet (Aside i a b))
    (hheader : Action.HeaderCurrent (w.devices d).loc i)
    (hact : Async.step w (.act d (Action.tapActionButton i)) = some w') :
    Refreshed d i a b flag n flag n w' ∨ Switching d i a b flag n true true true w' := by
  obtain ⟨screen, user, hi, hh, huid, hf⟩ := hheader
  have hshown := h.shown
  obtain ⟨screen', hi', hs⟩ := Option.map_eq_some_iff.mp hshown
  rw [hi] at hi'
  cases hi'
  cases hs
  have htap := profileTap i (w.devices d).loc
  by_cases hdone : (Action.tapActionButton i).block.start (w.devices d).loc = .done
  · refine Or.inl (h.act hact fun m hm _ => ?_)
    rw [hdone] at hm
    rw [show m = 0 from hm]
    simp
  · refine Or.inr ?_
    obtain ⟨currentUser, hblk⟩ : ∃ currentUser, (Action.tapActionButton i).block.start
        (w.devices d).loc = edgeWrites user.isFollowed a user.uid
          (onEdge i user.isFollowed user currentUser) := by
      have hop : (Action.tapActionButton i).op (w.devices d).loc ≠ .other := by
        generalize (Action.tapActionButton i).op (w.devices d).loc = op at htap
        generalize (Action.tapActionButton i).block.start (w.devices d).loc = blk at htap hdone
        cases htap with
        | none => exact absurd rfl hdone
        | follow => simp
        | unfollow => simp
      exact profileTap_header htap hop h.signedIn (by rw [hi]; exact hh)
    rw [hf, huid] at hblk
    obtain ⟨hsrv, -, hloc⟩ := acted hact
    refine ⟨by rw [hsrv]; exact h.stored, by rw [hloc]; exact h.signedIn,
      by rw [hloc]; exact hshown, ⟨h.nonneg, h.stored.recount_nonneg⟩, ?_⟩
    have hside : (w.devices d).Foresees (fun _ _ => True) fun m => ∀ x ∈ m, _ :=
      Device.Foresees.of_quiet hquiet
    refine (hside.act (stepped_of_step hact) fun m hm _ =>
      significant_edgeWrites hshown (hblk ▸ hm)).imp ?_
    rintro _ ⟨m₁, m₂, ⟨e₁, e₂, heq⟩, hside, rfl⟩
    exact ⟨e₁, e₂, by rw [significant_add, heq, significant_eq_zero.mpr hside, add_zero]⟩

/-! ## Every run -/

/-- What is aside may be started at any time. -/
theorem Switching.act {following follower change : Bool} {act : Action}
    (h : Switching d i a b flag n following follower change w)
    (hact : Async.step w (.act d act) = some w')
    (hout : ∀ m, Outcome (fun _ => True) (act.block.start (w.devices d).loc) m →
      ∀ x ∈ m, Aside i a b x) : Switching d i a b flag n following follower change w' := by
  obtain ⟨hsrv, -, hloc⟩ := acted hact
  refine ⟨by rw [hsrv]; exact h.stored, by rw [hloc]; exact h.signedIn,
    by rw [hloc]; exact h.shown, h.nonneg, ?_⟩
  refine (h.future.act (stepped_of_step hact) fun m hm _ => hout m hm).imp ?_
  rintro _ ⟨m₁, m₂, hside, ⟨e₁, e₂, heq⟩, rfl⟩
  exact ⟨e₁, e₂, by rw [significant_add, heq, significant_eq_zero.mpr hside, zero_add]⟩

/-- The screen is being brought to what is stored, or both are being changed. -/
inductive Keeping (d : D) (i : Nat) (a b : Uid) (w : World village D) : Prop
  | refreshed {flag flag' : Bool} {n n' : Int} (h : Refreshed d i a b flag n flag' n' w)
  | switching {flag following follower change : Bool} {n : Int}
      (h : Switching d i a b flag n following follower change w)

theorem Keeping.step (h : Keeping d i a b w) (hok : InTurns d i a b w e)
    (hstep : Async.step w e = some w') : Keeping d i a b w' := by
  have hs := stepped_of_step hstep
  -- neither a fetch nor a tap begins before a follow is over
  have still : ∀ {P : Obs sig → Prop}, (∀ x, P x → Following i a b x → Aside i a b x) →
      (w.devices d).Quiet P → ∃ flag n flag' n', Refreshed d i a b flag n flag' n' w := by
    intro P hP hquiet
    cases h with
    | refreshed h => exact ⟨_, _, _, _, h⟩
    | switching h =>
        obtain ⟨rfl, rfl, rfl⟩ := h.over hP hquiet
        exact ⟨_, _, _, _, h.refreshed⟩
  have other : e.Own d → (Alone d e ∧ Smooth e ∨ e.device ≠ d ∧ ∀ d' fail m ms,
      e = .commit d' fail → (w.devices d').writes = m :: ms → ¬FollowDoc a b m.write.ref) →
      Keeping d i a b w' := by
    intro hown hmay
    obtain ⟨o, ho, -⟩ := loc_of_step hs d
    have htold := told_of_step hs ho hmay
    cases h with
    | refreshed h =>
        obtain ⟨flag', n', h'⟩ := h.step hs hown ho htold
        exact .refreshed h'
    | switching h =>
        obtain ⟨following', follower', change', h'⟩ := h.step hs hown ho htold
        exact .switching h'
  cases hok with
  | fetch hact hquiet =>
      obtain ⟨flag, n, flag', n', h⟩ := still (fun x hx hf => absurd hf hx) hquiet
      exact .refreshed (h.act hstep fun m hm ha => outcome_fetch hact h.signedIn h.shown hm ha)
  | tap hquiet hheader =>
      obtain ⟨flag, n, flag', n', h⟩ := still (fun x hx _ => hx) hquiet
      obtain ⟨rfl, rfl⟩ := h.quiet hquiet
      exact (h.tap hquiet hheader hstep).elim .refreshed .switching
  | aside hside =>
      cases h with
      | refreshed h =>
          exact .refreshed (h.act hstep fun m hm _ x hx => (hside m hm x hx).refreshing)
      | switching h => exact .switching (h.act hstep hside)
  | own halone hsmooth => exact other halone.2 (Or.inl ⟨halone, hsmooth⟩)
  | other hd hnot =>
      refine other ⟨?_, ?_⟩ (Or.inr ⟨hd, hnot⟩)
      · rintro act rfl
        exact hd rfl
      · rintro j c rfl
        exact hd rfl

omit [DecidableEq D] in
theorem Keeping.nonneg (h : Keeping d i a b w) :
    ∃ flag n, followShown (w.devices d).loc i = some (b, flag, n) ∧ 0 ≤ n := by
  cases h with
  | refreshed h => exact ⟨_, _, h.shown, h.nonneg⟩
  | @switching flag following follower change n h =>
      refine ⟨_, _, h.shown, ?_⟩
      cases change with
      | true => exact h.nonneg.1
      | false => exact h.nonneg.2

omit [DecidableEq D] in
theorem Keeping.idle (h : Keeping d i a b w) (hidle : (w.devices d).idle = true) :
    ShowsStored (w.devices d).loc w.server i a b := by
  obtain ⟨flag, n, flag', n', h⟩ : ∃ flag n flag' n', Refreshed d i a b flag n flag' n' w := by
    cases h with
    | refreshed h => exact ⟨_, _, _, _, h⟩
    | switching h =>
        obtain ⟨rfl, rfl, rfl⟩ := h.over (fun x hx _ => hx) (.of_idle hidle)
        exact ⟨_, _, _, _, h.refreshed⟩
  obtain ⟨rfl, rfl⟩ := h.idle hidle
  unfold ShowsStored
  rw [h.shown, h.stored.follower, h.stored.count]

theorem keeping_of_load (hpushed : Pushed d i a b w₀)
    (hload : step w₀ (.act d (Action.profileDidLoad i)) = some w₁) : Keeping d i a b w₁ := by
  obtain ⟨flag', n', hshown, hn⟩ := hpushed.shown
  obtain ⟨hsrv, -, hloc⟩ := acted hload
  have hstored : FollowStored w₁.server a b (w₀.server.present ⟨.userFollowers b, a⟩)
      (w₀.server.present ⟨.userFollowers b, a⟩) (w₀.server.docs.count (.userFollowers b)) :=
    ⟨by rw [hsrv]; exact hpushed.edges, by rw [hsrv], by rw [hsrv]⟩
  refine .refreshed ⟨hstored, by rw [hloc]; exact hpushed.signedIn, by rw [hloc]; exact hshown, hn,
    ?_⟩
  refine ((Device.Foresees.of_quiet hpushed.quiet).act (stepped_of_step hload) fun m hm ha =>
    outcome_profileDidLoad hpushed.signedIn hshown hm ha).imp ?_
  rintro _ ⟨m₁, m₂, hc, hside, rfl⟩
  exact hc.add fun x hx => (hside x hx).refreshing

/-- A profile screen of `b` that `a` uses in turns never shows a negative
count, and shows what is stored whenever nothing is outstanding. -/
theorem follow_shown (hpushed : Pushed d i a b w₀)
    (hload : step w₀ (.act d (Action.profileDidLoad i)) = some w₁)
    (hrun : Run (InTurns d i a b) w₁ w) :
    (∃ flag n, followShown (w.devices d).loc i = some (b, flag, n) ∧ 0 ≤ n) ∧
      ((w.devices d).idle = true → ShowsStored (w.devices d).loc w.server i a b) := by
  have hkeep : Keeping d i a b w := by
    induction hrun with
    | refl => exact keeping_of_load hpushed hload
    | step _ hok hstep ih => exact ih.step hok hstep
  exact ⟨hkeep.nonneg, hkeep.idle⟩

/-- Binding the header leaves the screen as it is. -/
theorem aside_profileHeader
    (h : Outcome (fun _ => True) ((Action.profileHeader i).block.start app) m) :
    ∀ x ∈ m, Aside i a b x := by
  obtain ⟨_, rfl, rfl⟩ := h
  intro x hx
  obtain rfl : x = _ := by simpa using hx
  exact puts_profiles fun screen => ⟨rfl, rfl, rfl⟩

end

/-! ## Runs -/

/-- The screen is used in whatever order; nothing fails. -/
def UsesScreen {D : Type} (d : D) (i : Nat) (e : Event village D) : Prop :=
  (∃ act : Action, (act.Fetches i ∨ act = .profileHeader i ∨ act = .tapActionButton i) ∧
    e = .act d act) ∨ Alone d e ∧ Smooth e

/-- Alice has signed up, then Bob on the same device; he has found her profile. -/
def found : World village Unit :=
  emptyWorld
    |> smooth.perform () (.signUp "alice@dog.kr" "secret" "Alice" "alice" ⟨some []⟩) 100
    |> smooth.perform () .logout 100
    |> smooth.perform () (.signUp "bob@dog.kr" "secret" "Bob" "bob" ⟨some []⟩) 100
    |> smooth.perform () (.searchDidLoad 1) 100
    |> smooth.perform () (.searchSelectUser 1 0) 100

def foundLoading : World village Unit :=
  (step found (.act () (.profileDidLoad 2))).getD found

theorem step_found : step found (.act () (.profileDidLoad 2)) = some foundLoading := by
  have h : (step found (.act () (.profileDidLoad 2))).isSome = true := by decide
  obtain ⟨w, hw⟩ := Option.isSome_iff_exists.mp h
  rw [foundLoading, hw]
  rfl

theorem pushed_found : Pushed () 2 "n3" "n1" found where
  quiet := .of_idle (by decide)
  signedIn := by decide
  shown := ⟨false, 0, by decide, le_rfl⟩
  edges := by decide

/-- He follows her. -/
def foundFollowed : World village Unit :=
  smooth.drain () 100 foundLoading
    |> smooth.perform () (.profileHeader 2) 100
    |> smooth.perform () (.tapActionButton 2) 100

/-- He taps twice to unfollow her, the second time before the first was carried out. -/
def unfollowedTwice : World village Unit :=
  foundFollowed
    |> smooth.perform () (.profileHeader 2) 100
    |> smooth.perform () (.tapActionButton 2) 3
    |> smooth.perform () (.tapActionButton 2) 100

theorem inTurns_idle {w : World village Unit} {act : Action}
    (hact : act.Fetches 2 ∨ act = .profileHeader 2 ∨
      act = .tapActionButton 2 ∧ Action.HeaderCurrent (w.devices ()).loc 2)
    (hidle : (w.devices ()).idle = true) : InTurns () 2 "n3" "n1" w (.act () act) := by
  rcases hact with hact | rfl | ⟨rfl, hheader⟩
  · exact .fetch hact (.of_idle hidle)
  · exact .aside fun m hm => aside_profileHeader hm
  · exact .tap (.of_idle hidle) hheader

/-- Following her once, he sees the one follower there is. -/
theorem follow_shown_once : followShown (foundFollowed.devices ()).loc 2 =
    some ("n1", foundFollowed.server.present ⟨.userFollowers "n1", "n3"⟩,
      (foundFollowed.server.docs.count (.userFollowers "n1") : Int)) := by
  refine (follow_shown (i := 2) pushed_found step_found ?_).2 (by decide)
  have hpick : ∀ w e, smooth.pick () w = some e → InTurns () 2 "n3" "n1" w e := fun _ _ h =>
    .own (smooth_pick h).1 (smooth_pick h).2
  refine Policy.run_perform hpick (inTurns_idle (Or.inr (Or.inr ⟨rfl, ?_⟩)) (by decide)) ?_
  · exact ⟨_, _, rfl, rfl, rfl, rfl⟩
  refine Policy.run_perform hpick (inTurns_idle (Or.inr (Or.inl rfl)) (by decide)) ?_
  exact Policy.run_drain hpick .refl

/-- Tapping twice he sees one follower less than none. -/
theorem unfollowedTwice_shown : Pushed () 2 "n3" "n1" found ∧
    step found (.act () (.profileDidLoad 2)) = some foundLoading ∧
    Run (fun _ e => UsesScreen () 2 e) foundLoading unfollowedTwice ∧
    (unfollowedTwice.devices ()).idle = true ∧
    followShown (unfollowedTwice.devices ()).loc 2 = some ("n1", false, -1) ∧
    ¬ShowsStored (unfollowedTwice.devices ()).loc unfollowedTwice.server 2 "n3" "n1" := by
  refine ⟨pushed_found, step_found, ?_, by decide, by decide, ?_⟩
  · have hpick : ∀ w e, smooth.pick () w = some e → UsesScreen () 2 e := fun _ _ h =>
      Or.inr (smooth_pick h)
    unfold unfollowedTwice foundFollowed
    iterate 2
      refine Policy.run_perform hpick (Or.inl ⟨_, Or.inr (Or.inr rfl), rfl⟩) ?_
    refine Policy.run_perform hpick (Or.inl ⟨_, Or.inr (Or.inl rfl), rfl⟩) ?_
    refine Policy.run_perform hpick (Or.inl ⟨_, Or.inr (Or.inr rfl), rfl⟩) ?_
    refine Policy.run_perform hpick (Or.inl ⟨_, Or.inr (Or.inl rfl), rfl⟩) ?_
    exact Policy.run_drain hpick .refl
  · unfold ShowsStored
    decide

end DogVillage
