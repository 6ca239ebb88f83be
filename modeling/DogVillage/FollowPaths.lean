import DogVillage.Effects

/-!
# Two ways to follow

A follow or unfollow from a row of the notifications and one from the
profile, from the same server state. Both write the two edges; only the
profile's also tells the other account and brings the feed up to date.
-/

namespace DogVillage

open Async

/-- The notifications of `b`, without their ids and times. -/
def notificationList (srv : Server) (b : Uid) : List Dictionary :=
  (srv.docs.select { collection := .userNotifications b }).map fun document =>
    document.2.filter fun field => field.1 != "id" && field.1 != "timestamp"

/-- The same documents, up to the ids and times of the notifications of `b`. -/
structure SameState (b : Uid) (srv srv' : Server) : Prop where
  docs : ∀ r : Ref Collection, r.collection ≠ .userNotifications b →
    srv.docs.get r = srv'.docs.get r
  notifications : (notificationList srv b).Perm (notificationList srv' b)

/-- The id of every notification was handed out. -/
def Server.Named (srv : Server) : Prop :=
  ∀ uid id, srv.present ⟨.userNotifications uid, id⟩ = true → id ∈ srv.used

/-- The posts of `b`. -/
def Server.owns (srv : Server) (b : Uid) (p : DocId) : Prop :=
  ∃ data : Dictionary, srv.docs.get ⟨.posts, p⟩ = some data ∧
    data.lookup "ownerUid" = some (.string b)

section

variable {D : Type} [DecidableEq D] {d d' : D} {i j c : Nat} {a b : Uid} {followed : Bool}
  {w₀ w w₀' w' : World village D} {o : Multiset (Obs sig)} {srv srv' : Server}

/-- `a` taps the follow button of a row whose cell shows `b`. -/
structure ByRow (d : D) (j c : Nat) (a b : Uid) (followed : Bool) (w₀ w : World village D) :
    Prop where
  signedIn : (w₀.devices d).loc.currentUser = some a
  row : ∃ n : Notification, (w₀.devices d).loc.notifications[j]?.bind (·.cells c) = some n ∧
    n.uid = b ∧ n.userIsFollowed = followed
  runs : RunsAlone d (.tapFollow j c) w₀ w

/-- `a` taps the follow button of the profile of `b`. -/
structure ByProfile (d : D) (i : Nat) (a b : Uid) (followed : Bool) (w₀ w : World village D) :
    Prop where
  signedIn : (w₀.devices d).loc.currentUser = some a
  cached : (w₀.devices d).loc.user.isSome = true
  header : ∃ user : User, (w₀.devices d).loc.profiles[i]?.bind (·.header) = some user ∧
    user.uid = b ∧ user.isFollowed = followed
  runs : RunsAlone d (.tapActionButton i) w₀ w

/-! ## The documents -/

/-- The queries' answers are the documents' own. -/
theorem select_perm {srv srv' : Server} {q : Query Collection Value}
    (h : ∀ i, srv.docs.get ⟨q.collection, i⟩ = srv'.docs.get ⟨q.collection, i⟩) :
    (srv.docs.select q).Perm (srv'.docs.select q) := by
  refine (List.perm_ext_iff_of_nodup (.of_map _ (Documents.nodup_select _ q))
    (.of_map _ (Documents.nodup_select _ q))).mpr fun ⟨i, data⟩ => ?_
  rw [Documents.mem_select, Documents.mem_select, h]

/-! ## The writes of each way -/

/-- Both ways write the edge on both sides. -/
def Edge (a b : Uid) (r : Ref Collection) : Prop :=
  r = ⟨.userFollowing a, b⟩ ∨ r = ⟨.userFollowers b, a⟩

/-- `followWrites` and `unfollowWrites`. -/
def edgeWrites (followed : Bool) (a b : Uid) (completion : Completion) : Block :=
  if followed then unfollowWrites a b completion else followWrites a b completion

/-- What the writes of the edges show. -/
def edgeObs (followed : Bool) (a b : Uid) (e₁ e₂ : Option FIRError) : Multiset (Obs sig) :=
  {.issued (markWrite followed ⟨.userFollowing a, b⟩),
    .wrote (markWrite followed ⟨.userFollowing a, b⟩) e₁,
    .issued (markWrite followed ⟨.userFollowers b, a⟩),
    .wrote (markWrite followed ⟨.userFollowers b, a⟩) e₂}

theorem outcome_edgeWrites {I : App → Prop} {completion : Completion}
    (h : Outcome I (edgeWrites followed a b completion) o) :
    ∃ e₁ e₂ m, Outcome I (completion e₂) m ∧ o = edgeObs followed a b e₁ e₂ + m := by
  cases followed <;>
    obtain ⟨_, _, ⟨e₁, _, _, ⟨e₂, m, _, hm, rfl, rfl⟩, rfl, rfl⟩, rfl, rfl⟩ := h <;>
    refine ⟨e₁, e₂, m, hm, ?_⟩ <;>
    simp only [edgeObs, Multiset.insert_eq_cons, ← Multiset.singleton_add, markWrite, add_zero,
      Bool.false_eq_true, if_true, if_false] <;> abel

theorem mem_edgeObs {wr : Write} :
    .wrote wr none ∈ edgeObs followed a b none none ↔
      ∃ r, Edge a b r ∧ wr = markWrite followed r := by
  simp [edgeObs, Edge]

/-- Nothing fails: both edges were written. -/
theorem Traced.edges {e₁ e₂ : Option FIRError} (h : Traced srv srv' o)
    (ho : edgeObs followed a b e₁ e₂ ≤ o) : e₁ = none ∧ e₂ = none := by
  have settled : ∀ {r e}, .wrote (markWrite followed r) e ∈ edgeObs followed a b e₁ e₂ →
      e = none := by
    intro r e hr
    cases e with
    | none => rfl
    | some err =>
        obtain ⟨r', data, hwr, -⟩ := h.refused _ err (Multiset.mem_of_le ho hr)
        exact absurd hwr (markWrite_ne r r' data)
  exact ⟨settled (r := ⟨.userFollowing a, b⟩) (by simp [edgeObs]),
    settled (r := ⟨.userFollowers b, a⟩) (by simp [edgeObs])⟩

theorem wrote_byRow (h : ByRow d j c a b followed w₀ w) :
    ∃ o, Traced w₀.server w.server o ∧
      ∀ wr : Write, .wrote wr none ∈ o ↔ ∃ r, Edge a b r ∧ wr = markWrite followed r := by
  obtain ⟨o, htr, hout⟩ := h.runs.traced
  refine ⟨o, htr, ?_⟩
  have hout := hout (fun _ => True) trivial fun _ _ _ _ => trivial
  obtain ⟨n, hn, rfl, hf⟩ := h.row
  have htap := notificationTap j c (w₀.devices d).loc
  have hop : (Action.tapFollow j c).op (w₀.devices d).loc ≠ .other := by
    simp only [Action.op, hn]
    split <;> simp
  generalize (Action.tapFollow j c).op (w₀.devices d).loc = op at htap hop
  generalize (Action.tapFollow j c).block.start (w₀.devices d).loc = blk at htap hout
  have hblk : blk = .modify (loader true)
      (edgeWrites followed a n.uid (NotificationController.onTap j c)) := by
    cases htap with
    | none => exact absurd rfl hop
    | dropped huid => rw [h.signedIn] at huid; cases huid
    | follow hn' huid hf' =>
        rw [hn] at hn'
        rw [h.signedIn] at huid
        cases hn'
        cases huid
        rw [← hf, hf']
        rfl
    | unfollow hn' huid hf' =>
        rw [hn] at hn'
        rw [h.signedIn] at huid
        cases hn'
        cases huid
        rw [← hf, hf']
        rfl
  subst hblk
  obtain ⟨_, hb, rfl⟩ := hout
  obtain ⟨e₁, e₂, m, ⟨_, ⟨_, rfl, rfl⟩, rfl⟩, rfl⟩ := outcome_edgeWrites hb
  obtain ⟨rfl, rfl⟩ := htr.edges (Multiset.le_add_right _ _ |>.trans (Multiset.le_add_left _ _))
  intro wr
  rw [Multiset.mem_add, Multiset.mem_add, mem_edgeObs]
  simp

/-- The posts a change of the feed is about. -/
abbrev postsQuery (b : Uid) : Query Collection Value :=
  { collection := .posts, whereField := some ("ownerUid", .string b) }

theorem outcome_updateUserFeed {I : App → Prop} {user : User}
    (hI : ∀ app, I app → app.currentUser = some a)
    (h : Outcome I (PostService.updateUserFeedAfterFollowing user (!followed)) o) :
    ∃ snapshot m, o = {.answered (.getDocuments (postsQuery user.uid)) snapshot} + m ∧
      ∀ documents, snapshot = some documents → ∀ wr : Write, (∃ x ∈ m, ∃ e, x = .wrote wr e) ↔
        ∃ document ∈ documents, wr = markWrite followed ⟨.userFeed a, document.1⟩ := by
  obtain ⟨app, happ, h⟩ := h
  simp only [hI app happ] at h
  obtain ⟨_, _, ⟨(snapshot : Option (List (DocId × Dictionary))), m, _, hm, rfl, rfl⟩, rfl, rfl⟩ := h
  refine ⟨snapshot, m, by simp, ?_⟩
  rintro documents rfl wr
  refine Sum.exists_mem_iff (fun document m' hm' => ?_) (Outcome.forEach.mp hm)
  cases followed with
  | true =>
      obtain ⟨e, _, _, rfl, rfl, rfl⟩ := hm'
      simp [markWrite]
  | false =>
      obtain ⟨e, _, _, rfl, rfl, rfl⟩ := hm'
      simp [markWrite]

theorem outcome_uploadFollowNotification {I : App → Prop} {fromUser : User} (hab : a ≠ b)
    (hI : ∀ app, I app → app.currentUser = some a)
    (h : Outcome I (NotificationService.uploadFollowNotification b fromUser .follow) o) :
    ∃ v e wr, wr = .setData ⟨.userNotifications b, v.uuid⟩
        (NotificationService.notificationData fromUser.uid fromUser .follow v) ∧
      o = {.supplied v, .issued wr, .wrote wr e} := by
  obtain ⟨app, happ, h⟩ := h
  simp only [hI app happ, bne_iff_ne, ne_eq, Ne.symm hab, not_false_eq_true, if_true] at h
  obtain ⟨_, _, ⟨v, _, ⟨e, _, _, rfl, rfl, rfl⟩, rfl⟩, rfl, rfl⟩ := h
  refine ⟨v, e, _, rfl, ?_⟩
  simp only [Multiset.insert_eq_cons, ← Multiset.singleton_add, add_zero]

/-- The completion the profile gives to `unfollow`, or to `follow`. -/
def onEdge (i : Nat) (followed : Bool) (user currentUser : User) : Completion :=
  if followed then ProfileController.onUnfollow i user
  else ProfileController.onFollow i user currentUser

theorem outcome_onEdge {I : App → Prop} {user currentUser : User} {e : Option FIRError}
    (hab : a ≠ user.uid) (hI : ∀ app, I app → app.currentUser = some a)
    (h : Outcome I (onEdge i followed user currentUser e) o) :
    ∃ f m m', Outcome I (PostService.updateUserFeedAfterFollowing user (!followed)) m ∧
      o = {.changed (followChange i (!followed) f)} + m' + m ∧
      (followed = true ∧ m' = 0 ∨ followed = false ∧
        ∃ v e wr, wr = .setData ⟨.userNotifications user.uid, v.uuid⟩
            (NotificationService.notificationData currentUser.uid currentUser .follow v) ∧
          m' = {.supplied v, .issued wr, .wrote wr e}) := by
  cases followed with
  | true =>
      obtain ⟨m, hm, rfl⟩ := h
      exact ⟨-1, m, 0, hm, by rw [add_zero]; rfl, Or.inl ⟨rfl, rfl⟩⟩
  | false =>
      obtain ⟨_, h, rfl⟩ := h
      obtain ⟨m', m, hm', hm, rfl⟩ := Outcome.andThen (c :=
        NotificationService.uploadFollowNotification user.uid currentUser .follow).mp h
      exact ⟨1, m, m', hm, by rw [add_assoc]; rfl,
        Or.inr ⟨rfl, outcome_uploadFollowNotification hab hI hm'⟩⟩

theorem profileTap_header {user : User} {app : App} {op : Op} {blk : Block}
    (htap : ProfileTap i app op blk) (hop : op ≠ .other) (huid : app.currentUser = some a)
    (hheader : app.profiles[i]?.bind (·.header) = some user) :
    ∃ currentUser, blk = edgeWrites user.isFollowed a user.uid
      (onEdge i user.isFollowed user currentUser) := by
  cases htap with
  | none h =>
      rcases h with rfl | h
      · exact absurd rfl hop
      · rw [huid] at h; cases h
  | @follow profile user' currentUser uid hi hh hu huid' hne hf =>
      rw [hi, Option.bind_some, hh] at hheader
      rw [huid] at huid'
      cases hheader
      cases huid'
      exact ⟨currentUser, by rw [hf]; rfl⟩
  | @unfollow profile user' currentUser uid hi hh hu huid' hne hf =>
      rw [hi, Option.bind_some, hh] at hheader
      rw [huid] at huid'
      cases hheader
      cases huid'
      exact ⟨currentUser, by rw [hf]; rfl⟩

theorem wrote_byProfile (hab : a ≠ b) (h : ByProfile d i a b followed w₀ w) :
    ∃ o m, Traced w₀.server w.server o ∧ m ≤ o ∧
      (∀ wr : Write, .wrote wr none ∈ o ↔ (∃ r, Edge a b r ∧ wr = markWrite followed r) ∨
        (∃ p, w₀.server.owns b p ∧ wr = markWrite followed ⟨.userFeed a, p⟩) ∨
        .wrote wr none ∈ m) ∧
      (followed = true ∧ m = 0 ∨ followed = false ∧
        ∃ v data, m = {.supplied v, .issued (.setData ⟨.userNotifications b, v.uuid⟩ data),
          .wrote (.setData ⟨.userNotifications b, v.uuid⟩ data) none}) := by
  obtain ⟨o, htr, hout⟩ := h.runs.traced
  obtain ⟨user, hheader, rfl, rfl⟩ := h.header
  have htap := profileTap i (w₀.devices d).loc
  have hop : (Action.tapActionButton i).op (w₀.devices d).loc ≠ .other := by
    obtain ⟨cu, hcu⟩ := Option.isSome_iff_exists.mp h.cached
    simp only [Action.op, hheader, hcu, h.signedIn, beq_iff_eq, Option.some.injEq, hab, if_false]
    split <;> simp
  generalize (Action.tapActionButton i).op (w₀.devices d).loc = op at htap hop
  generalize (Action.tapActionButton i).block.start (w₀.devices d).loc = blk at htap hout
  obtain ⟨currentUser, rfl⟩ := profileTap_header htap hop h.signedIn hheader
  -- nobody signs in or out meanwhile
  have hkept : Kept (fun app : App => app.currentUser = some a) o := by
    intro f hf app happ
    rcases changes_profileTap htap (hout (fun _ => True) trivial fun _ _ _ _ => trivial) with
      rfl | ⟨-, f', n, -, hc⟩
    · simp at hf
    · rw [← mem_changes, hc, Multiset.mem_singleton] at hf
      rw [hf]
      exact happ
  obtain ⟨e₁, e₂, _, hm, rfl⟩ := outcome_edgeWrites (hout _ h.signedIn hkept)
  obtain ⟨f, m, m', hfeed, rfl, hnote⟩ := outcome_onEdge hab (fun _ h => h) hm
  obtain ⟨snapshot, m'', rfl, hwrote⟩ := outcome_updateUserFeed (fun _ h => h) hfeed
  obtain ⟨rfl, rfl⟩ := htr.edges (Multiset.le_add_right _ _)
  obtain ⟨documents, rfl, hmem⟩ := htr.answers (postsQuery user.uid) snapshot (by simp)
  have hnote : user.isFollowed = true ∧ m' = 0 ∨ user.isFollowed = false ∧
      ∃ v data, m' = {.supplied v, .issued (.setData ⟨.userNotifications user.uid, v.uuid⟩ data),
        .wrote (.setData ⟨.userNotifications user.uid, v.uuid⟩ data) none} := by
    refine hnote.imp id (And.imp id ?_)
    rintro ⟨v, e, wr, rfl, rfl⟩
    cases e with
    | none => exact ⟨v, _, rfl⟩
    | some err =>
        obtain ⟨r, data, hwr, -⟩ := htr.refused (.setData ⟨.userNotifications user.uid, v.uuid⟩
          (NotificationService.notificationData currentUser.uid currentUser .follow v)) err (by simp)
        cases hwr
  have hfed : ∀ wr : Write, .wrote wr none ∈ m'' ↔
      ∃ document ∈ documents, wr = markWrite user.isFollowed ⟨.userFeed a, document.1⟩ := by
    intro wr
    rw [← hwrote documents rfl wr]
    constructor
    · exact fun h => ⟨_, h, _, rfl⟩
    · rintro ⟨_, hx, e, rfl⟩
      obtain ⟨document, -, rfl⟩ := (hwrote documents rfl wr).mp ⟨_, hx, e, rfl⟩
      cases e with
      | none => exact hx
      | some err =>
          obtain ⟨r, data, hwr, -⟩ := htr.refused _ err
            (Multiset.mem_add.mpr (Or.inr (Multiset.mem_add.mpr (Or.inr
              (Multiset.mem_add.mpr (Or.inr hx))))))
          exact absurd hwr (markWrite_ne _ r data)
  have hall : ∀ wr : Write, .wrote wr none ∈ edgeObs user.isFollowed a user.uid none none +
      ({.changed (followChange i (!user.isFollowed) f)} + m' +
        ({.answered (.getDocuments (postsQuery user.uid)) (some documents)} + m'')) ↔
      (∃ r, Edge a user.uid r ∧ wr = markWrite user.isFollowed r) ∨
        (∃ document ∈ documents, wr = markWrite user.isFollowed ⟨.userFeed a, document.1⟩) ∨
        .wrote wr none ∈ m' := by
    intro wr
    rw [Multiset.mem_add, mem_edgeObs, ← hfed wr]
    simp only [Multiset.mem_add, Multiset.mem_singleton, reduceCtorEq, false_or]
    exact or_congr Iff.rfl or_comm
  -- none of these is a write to `posts`
  have hposts : ∀ x : DocId × Dictionary, x ∈ documents ↔
      w₀.server.docs.get ⟨.posts, x.1⟩ = some x.2 ∧
        x.2.lookup "ownerUid" = some (.string user.uid) := by
    intro x
    rw [hmem (fun wr hwr => ?_) x]
    · simp [Query.selects]
    · rcases (hall wr).mp hwr with ⟨r, rfl | rfl, rfl⟩ | ⟨document, -, rfl⟩ | hwr
      · simp
      · simp
      · simp
      · rcases hnote with ⟨-, rfl⟩ | ⟨-, v, data, rfl⟩
        · simp at hwr
        · simp at hwr
          subst hwr
          simp [DocWrite.ref]
  refine ⟨_, m', htr, ?_, fun wr => ?_, hnote⟩
  · exact (Multiset.le_add_left _ _).trans ((Multiset.le_add_right _ _).trans
      (Multiset.le_add_left _ _))
  · rw [hall wr]
    refine or_congr Iff.rfl (or_congr ?_ Iff.rfl)
    constructor
    · rintro ⟨⟨p, data⟩, hp, rfl⟩
      exact ⟨p, ⟨data, (hposts _).mp hp⟩, rfl⟩
    · rintro ⟨p, ⟨data, hp⟩, rfl⟩
      exact ⟨(p, data), (hposts _).mpr hp, rfl⟩

/-! ## The two servers -/

/-- A new notification is one more. -/
theorem length_notificationList {id : DocId} {data : Dictionary}
    (hold : srv.docs.get ⟨.userNotifications b, id⟩ = none)
    (hnew : srv'.docs.get ⟨.userNotifications b, id⟩ = some data)
    (hrest : ∀ id', id' ≠ id →
      srv'.docs.get ⟨.userNotifications b, id'⟩ = srv.docs.get ⟨.userNotifications b, id'⟩) :
    (notificationList srv' b).length = (notificationList srv b).length + 1 := by
  have hp : (srv'.docs.select { collection := .userNotifications b }).Perm
      ((id, data) :: srv.docs.select { collection := .userNotifications b }) := by
    refine (List.perm_ext_iff_of_nodup (.of_map _ (Documents.nodup_select _ _))
      (List.nodup_cons.mpr ⟨?_, .of_map _ (Documents.nodup_select _ _)⟩)).mpr fun ⟨id', data'⟩ => ?_
    · intro h
      rw [Documents.mem_select, hold] at h
      cases h.1
    · rw [List.mem_cons, Documents.mem_select, Documents.mem_select]
      by_cases hid : id' = id
      · subst hid
        rw [hnew, hold]
        simp [Query.selects, eq_comm]
      · rw [hrest id' hid]
        simp [hid]
  rw [notificationList, notificationList, List.length_map, List.length_map, hp.length_eq,
    List.length_cons]

/-- Either way ends with the edges as the tap wanted them. -/
theorem edge_byRow (h : ByRow d j c a b followed w₀ w) {r : Ref Collection} (hr : Edge a b r) :
    w.server.docs.get r = if followed then none else some [] := by
  obtain ⟨o, htr, hall⟩ := wrote_byRow h
  refine htr.mark (fun wr hwr hwrr => ?_) ((hall _).mpr ⟨r, hr, rfl⟩)
  obtain ⟨r', -, rfl⟩ := (hall wr).mp hwr
  rw [← hwrr, ref_markWrite]

/-- From a row nothing else is written. -/
theorem kept_byRow (h : ByRow d j c a b followed w₀ w) {r : Ref Collection} (hr : ¬Edge a b r) :
    w.server.docs.get r = w₀.server.docs.get r := by
  obtain ⟨o, htr, hall⟩ := wrote_byRow h
  refine htr.kept (accepted_eq_zero fun wr hwr hwrr => ?_)
  obtain ⟨r', hr', rfl⟩ := (hall wr).mp hwr
  rw [ref_markWrite] at hwrr
  exact hr (hwrr ▸ hr')

/-- From the profile the feed is written too. -/
def Touched (srv : Server) (a b : Uid) (r : Ref Collection) : Prop :=
  Edge a b r ∨ ∃ p, srv.owns b p ∧ r = ⟨.userFeed a, p⟩

theorem touched_byProfile (hab : a ≠ b) (h : ByProfile d i a b followed w₀ w) {r : Ref Collection}
    (hr : Touched w₀.server a b r) : w.server.docs.get r = if followed then none else some [] := by
  obtain ⟨o, m, htr, -, hall, hnote⟩ := wrote_byProfile hab h
  have hcoll : r.collection ≠ .userNotifications b := by
    rcases hr with (rfl | rfl) | ⟨p, -, rfl⟩ <;> simp
  refine htr.mark (fun wr hwr hwrr => ?_) ((hall _).mpr ?_)
  · rcases (hall wr).mp hwr with ⟨r', -, rfl⟩ | ⟨p, -, rfl⟩ | hwr
    · rw [← hwrr, ref_markWrite]
    · rw [← hwrr, ref_markWrite]
    · rcases hnote with ⟨-, rfl⟩ | ⟨-, v, data, rfl⟩
      · simp at hwr
      · simp at hwr
        subst hwr
        exact absurd (hwrr ▸ rfl) hcoll
  · rcases hr with hr | ⟨p, hp, rfl⟩
    · exact Or.inl ⟨r, hr, rfl⟩
    · exact Or.inr (Or.inl ⟨p, hp, rfl⟩)

theorem kept_byProfile (hab : a ≠ b) (h : ByProfile d i a b followed w₀ w) {r : Ref Collection}
    (hr : ¬Touched w₀.server a b r) (hcoll : r.collection ≠ .userNotifications b) :
    w.server.docs.get r = w₀.server.docs.get r := by
  obtain ⟨o, m, htr, -, hall, hnote⟩ := wrote_byProfile hab h
  refine htr.kept (accepted_eq_zero fun wr hwr hwrr => ?_)
  rcases (hall wr).mp hwr with ⟨r', hr', rfl⟩ | ⟨p, hp, rfl⟩ | hwr
  · rw [ref_markWrite] at hwrr
    exact hr (Or.inl (hwrr ▸ hr'))
  · rw [ref_markWrite] at hwrr
    exact hr (Or.inr ⟨p, hp, hwrr.symm⟩)
  · rcases hnote with ⟨-, rfl⟩ | ⟨-, v, data, rfl⟩
    · simp at hwr
    · simp at hwr
      subst hwr
      exact hcoll (hwrr ▸ rfl)

/-- The notifications of `b` after an unfollow from the profile, and after
a follow from there. -/
theorem notifications_byProfile (hab : a ≠ b) (h : ByProfile d i a b followed w₀ w)
    (hnamed : w₀.server.Named) :
    followed = true ∧ (∀ id, w.server.docs.get ⟨.userNotifications b, id⟩ =
      w₀.server.docs.get ⟨.userNotifications b, id⟩) ∨
    followed = false ∧ (notificationList w.server b).length =
      (notificationList w₀.server b).length + 1 := by
  obtain ⟨o, m, htr, hle, hall, hnote⟩ := wrote_byProfile hab h
  have hm : ∀ wr : Write, .wrote wr none ∈ o → wr.ref.collection = .userNotifications b →
      .wrote wr none ∈ m := by
    intro wr hwr hcoll
    rcases (hall wr).mp hwr with ⟨r, rfl | rfl, rfl⟩ | ⟨p, -, rfl⟩ | hwr
    · simp at hcoll
    · simp at hcoll
    · simp at hcoll
    · exact hwr
  rcases hnote with ⟨hf, rfl⟩ | ⟨hf, v, data, rfl⟩
  · refine Or.inl ⟨hf, fun id => htr.kept (accepted_eq_zero fun wr hwr hwrr => ?_)⟩
    have := hm wr hwr (by rw [hwrr])
    simp at this
  · refine Or.inr ⟨hf, @length_notificationList _ _ _ v.uuid data ?_ ?_ ?_⟩
    · have hnew : v.uuid ∉ w₀.server.used := htr.fresh v (Multiset.mem_of_le hle (by simp))
      by_contra hne
      exact hnew (hnamed b v.uuid (Option.isSome_iff_ne_none.mpr hne))
    · refine htr.settled (fun wr hwr hwrr old => ?_)
        ⟨.setData ⟨.userNotifications b, v.uuid⟩ data, Multiset.mem_of_le hle (by simp), rfl⟩
      have := hm wr hwr (by rw [hwrr])
      simp at this
      rw [this]
      rfl
    · intro id' hid
      refine htr.kept (accepted_eq_zero fun wr hwr hwrr => ?_)
      have := hm wr hwr (by rw [hwrr])
      simp at this
      subst this
      exact hid (congrArg Ref.id hwrr).symm

/-! ## The two ways compared -/

/-- The two ways lead to the same server state exactly when the tap is an
unfollow and no post of `b` is in the feed. -/
theorem sameState_iff (hab : a ≠ b) (hsrv : w₀'.server = w₀.server) (hnamed : w₀.server.Named)
    (h : ByProfile d i a b followed w₀ w) (h' : ByRow d' j c a b followed w₀' w') :
    SameState b w.server w'.server ↔
      followed = true ∧ ∀ p, w₀.server.owns b p → w₀.server.docs.get ⟨.userFeed a, p⟩ = none := by
  have hrow : ∀ r, ¬Edge a b r → w'.server.docs.get r = w₀.server.docs.get r := fun r hr => by
    rw [kept_byRow h' hr, hsrv]
  have hnote : ∀ id, ¬Edge a b ⟨.userNotifications b, id⟩ := by simp [Edge]
  have hfeed : ∀ p, ¬Edge a b ⟨.userFeed a, p⟩ := by simp [Edge]
  constructor
  · intro hsame
    rcases notifications_byProfile hab h hnamed with ⟨hf, -⟩ | ⟨-, hlen⟩
    · refine ⟨hf, fun p hp => ?_⟩
      rw [← hrow _ (hfeed p), ← hsame.docs _ (by simp),
        touched_byProfile hab h (Or.inr ⟨p, hp, rfl⟩), if_pos hf]
    · -- a follow from the profile tells `b`, one from a row does not
      have hlen' : (notificationList w'.server b).length = (notificationList w₀.server b).length :=
        ((select_perm fun id => hrow _ (hnote id)).map _).length_eq
      have := hsame.notifications.length_eq
      omega
  · rintro ⟨hf, hclear⟩
    refine ⟨fun r hr => ?_, ?_⟩
    · by_cases hedge : Edge a b r
      · rw [touched_byProfile hab h (Or.inl hedge), edge_byRow h' hedge]
      · rw [hrow r hedge]
        by_cases htouched : Touched w₀.server a b r
        · rw [touched_byProfile hab h htouched, if_pos hf]
          rcases htouched with hedge' | ⟨p, hp, rfl⟩
          · exact absurd hedge' hedge
          · rw [hclear p hp]
        · exact kept_byProfile hab h htouched hr
    · rcases notifications_byProfile hab h hnamed with ⟨-, hget⟩ | ⟨hf', -⟩
      · exact (select_perm fun id => by rw [hget, hrow _ (hnote id)]).map _
      · rw [hf] at hf'
        cases hf'

end

/-! ## Runs -/

/-- Bob has posted and follows Alice. She signs in on the same device and has
the row that tells her so and his profile on her screens. -/
def bobOnScreen : World village Unit :=
  emptyWorld
    |> smooth.perform () (.signUp "alice@dog.kr" "secret" "Alice" "alice" ⟨some []⟩) 100
    |> smooth.perform () .logout 100
    |> smooth.perform () (.signUp "bob@dog.kr" "secret" "Bob" "bob" ⟨some []⟩) 100
    |> smooth.perform () (.didFinishPicking ⟨some []⟩) 100
    |> smooth.perform () (.tapDone 0 "bath") 100
    |> smooth.perform () (.searchDidLoad 1) 100
    |> smooth.perform () (.searchSelectUser 1 0) 100
    |> smooth.perform () (.profileHeader 2) 100
    |> smooth.perform () (.tapActionButton 2) 100
    |> smooth.perform () .logout 100
    |> smooth.perform () (.login "alice@dog.kr" "secret") 100
    |> smooth.perform () (.notificationDidLoad 2) 100
    |> smooth.perform () (.notificationCell 2 0 0) 100
    |> smooth.perform () (.searchDidLoad 2) 100
    |> smooth.perform () (.searchSelectUser 2 1) 100
    |> smooth.perform () (.profileDidLoad 4) 100
    |> smooth.perform () (.profileHeader 4) 100

/-- Alice follows Bob from the row, so that his post stays out of her feed,
and opens his profile again. -/
def bobFollowed : World village Unit :=
  bobOnScreen
    |> smooth.perform () (.tapFollow 2 0) 100
    |> smooth.perform () (.searchSelectUser 2 1) 100
    |> smooth.perform () (.profileDidLoad 5) 100
    |> smooth.perform () (.profileHeader 5) 100

theorem bobOnScreen_reached : Run (fun _ _ => True) emptyWorld bobOnScreen := by
  unfold bobOnScreen
  iterate 17 refine Policy.run_perform (fun _ _ _ => trivial) trivial ?_
  exact .refl

theorem bobFollowed_reached : Run (fun _ _ => True) emptyWorld bobFollowed := by
  unfold bobFollowed
  iterate 4 refine Policy.run_perform (fun _ _ _ => trivial) trivial ?_
  exact bobOnScreen_reached

theorem bobFollowed_named : bobFollowed.server.Named := by
  have hkeys : ∀ r ∈ bobFollowed.server.docs.keys, r.id ∈ bobFollowed.server.used := by decide
  exact fun _ _ hp => hkeys _ (AList.mem_keys.mp (AList.lookup_isSome.mp hp))

/-- None of Bob's posts is in Alice's feed. -/
theorem bobFollowed_clear (p : DocId) (hp : bobFollowed.server.owns "n3" p) :
    bobFollowed.server.docs.get ⟨.userFeed "n1", p⟩ = none := by
  have hkeys : ∀ r ∈ bobFollowed.server.docs.keys, r.collection = .posts →
      bobFollowed.server.docs.get ⟨.userFeed "n1", r.id⟩ = none := by decide
  obtain ⟨data, hget, -⟩ := hp
  have hmem : (⟨.posts, p⟩ : Ref Collection) ∈ bobFollowed.server.docs :=
    AList.lookup_isSome.mp (Option.isSome_of_eq_some hget)
  exact hkeys _ (AList.mem_keys.mp hmem) rfl

theorem sameState_unfollow : Run (fun _ _ => True) emptyWorld bobFollowed ∧
    (∃ p, bobFollowed.server.owns "n3" p) ∧
    SameState "n3" (smooth.perform () (.tapActionButton 5) 100 bobFollowed).server
      (smooth.perform () (.tapFollow 2 0) 100 bobFollowed).server := by
  have hprofile : ByProfile () 5 "n1" "n3" true bobFollowed
      (smooth.perform () (.tapActionButton 5) 100 bobFollowed) :=
    ⟨by decide, by decide, ⟨_, rfl, by decide, by decide⟩,
      runsAlone_perform (by decide) (by decide)⟩
  have hrow : ByRow () 2 0 "n1" "n3" true bobFollowed
      (smooth.perform () (.tapFollow 2 0) 100 bobFollowed) :=
    ⟨by decide, ⟨_, rfl, by decide, by decide⟩, runsAlone_perform (by decide) (by decide)⟩
  exact ⟨bobFollowed_reached, ⟨"n5", _, rfl, by decide⟩,
    (sameState_iff (by decide) rfl bobFollowed_named hprofile hrow).mpr ⟨rfl, bobFollowed_clear⟩⟩

/-- Following from the row, Bob is not told. -/
theorem follow_from_row_untold : Run (fun _ _ => True) emptyWorld bobOnScreen ∧
    ∃ w w', ByProfile () 4 "n1" "n3" false bobOnScreen w ∧
      ByRow () 2 0 "n1" "n3" false bobOnScreen w' ∧ ¬SameState "n3" w.server w'.server := by
  refine ⟨bobOnScreen_reached, _, _,
    ⟨by decide, by decide, ⟨_, rfl, by decide, by decide⟩,
      @runsAlone_perform _ _ _ _ _ 100 (by decide) (by decide)⟩,
    ⟨by decide, ⟨_, rfl, by decide, by decide⟩,
      @runsAlone_perform _ _ _ _ _ 100 (by decide) (by decide)⟩, fun h => ?_⟩
  have hlen := h.notifications.length_eq
  revert hlen
  decide

end DogVillage
