import DogVillage.Records

/-!
# What the screens show

Posts are handed from screen to screen: from lists to cells, to grids, to
comment screens, into the alert before a removal. On the way only the likes
of a copy are ever changed. So whatever is on display, on any device and
however old, is the post as it was uploaded, but for its likes.
-/

namespace DogVillage

open Async

/-! ## Copies -/

/-- The post, apart from its likes. -/
def Post.content (post : Post) : Post := { post with likes := 0, didLike := false }

/-- The document of a post as an upload writes it. -/
def Uploaded (data : Dictionary) : Prop :=
  ∃ caption imageUrl uid user now, data = PostService.postData caption imageUrl uid user now

theorem content_init {p : DocId} {data data₀ : Dictionary} (hup : Uploaded data₀)
    (h : ∀ key, key ≠ "likes" → data.lookup key = data₀.lookup key) (now now' : Timestamp) :
    (Post.init p data now).content = (Post.init p data₀ now').content := by
  obtain ⟨caption, imageUrl, uid, user, t, rfl⟩ := hup
  have hl : ∀ key, key ≠ "likes" → data.lookup key =
      (PostService.postData caption imageUrl uid user t).lookup key := h
  simp only [Post.content, Post.init, Dictionary.string, Dictionary.timestamp,
    hl _ (by decide : "caption" ≠ "likes"), hl _ (by decide : "imageUrl" ≠ "likes"),
    hl _ (by decide : "timestamp" ≠ "likes"), hl _ (by decide : "ownerUid" ≠ "likes"),
    hl _ (by decide : "ownerImageUrl" ≠ "likes"), hl _ (by decide : "ownerUsername" ≠ "likes")]
  rfl

section

variable {D : Type}

/-- The post was uploaded so, whatever its likes. -/
def Genuine (log : Log D) (post : Post) : Prop :=
  ∃ x ∈ log, ∃ data, x.obs = .wrote (.setData ⟨.posts, post.postId⟩ data) none ∧
    ∀ now, post.content = (Post.init post.postId data now).content

theorem Genuine.mono {log log' : Log D} (h : log <:+ log') {post : Post} (hp : Genuine log post) :
    Genuine log' post := by
  obtain ⟨x, hx, hp⟩ := hp
  exact ⟨x, h.subset hx, hp⟩

end

/-! ## Memory -/

structure FeedController.Shows (G : Post → Prop) (feed : FeedController) : Prop where
  posts : ∀ p ∈ feed.posts, G p
  post : ∀ p, feed.post = some p → G p
  cells : ∀ c p, feed.cells c = some p → G p

/-- Whatever post is on display somewhere is one of `G`. -/
structure App.Shows (G : Post → Prop) (app : App) : Prop where
  feeds : ∀ feed ∈ app.feeds, feed.Shows G
  profiles : ∀ screen ∈ app.profiles, ∀ p ∈ screen.posts, G p
  searches : ∀ screen ∈ app.searches, ∀ p ∈ screen.posts, G p
  comments : ∀ screen ∈ app.comments, G screen.post
  alerts : ∀ x ∈ app.alerts, G x.1

/-- Whatever post is answered is one of `G`. -/
def Gives (G : Post → Prop) : (q : Ask) → q.Ans → Prop
  | .getDocument r, a => r.collection = .posts → ∀ data, a = some (some data) →
      ∀ now, G (Post.init r.id data now)
  | .getDocuments q, a => q.collection = .posts → ∀ documents, a = some documents →
      ∀ x ∈ documents, ∀ now, G (Post.init x.1 x.2 now)
  | _, _ => True

/-- A change of the memory puts no other post on display. -/
def Showing (G : Post → Prop) : Obs sig → Prop
  | .changed f => ∀ app : App, app.Shows G → (f app).Shows G
  | _ => True

/-- Code that shows posts of `G` only. -/
abbrev ShowsCode (G : Post → Prop) (b : Block) : Prop :=
  b.Under (App.Shows G) (Gives G) (Showing G)

section

variable {G : Post → Prop} {i c row : Nat} {b b' : Block} {F : Part → Prop}

theorem plain_showing : Plain (Showing G) := ⟨fun _ _ => trivial, fun _ => trivial⟩

theorem sends_showing (w : Write) : Sends (Showing G) w := ⟨trivial, fun _ => trivial⟩

theorem shows_andThen (h : ShowsCode G b) (h' : ShowsCode G b') : ShowsCode G (b >> b') :=
  Code.Under.andThen h' h

/-- The parts of the memory that show posts. -/
def Part.shows : List Part := [.feeds, .profiles, .searches, .comments, .alerts]

/-- Code that changes none of the parts that show posts. -/
theorem shows_of_edits (hedits : Edits F b) (hF : ∀ p ∈ Part.shows, ¬F p) : ShowsCode G b := by
  refine (hedits.weaken (fun _ _ => trivial) fun _ _ _ => trivial).mono fun o ho => ?_
  cases o with
  | changed f =>
      intro app happ
      have same : ∀ p ∈ Part.shows, p.Same app (f app) := fun p hp => ho app p (hF p hp)
      have hfeeds : (f app).feeds = app.feeds := same .feeds (by decide)
      have hprofiles : (f app).profiles = app.profiles := same .profiles (by decide)
      have hsearches : (f app).searches = app.searches := same .searches (by decide)
      have hcomments : (f app).comments = app.comments := same .comments (by decide)
      have halerts : (f app).alerts = app.alerts := same .alerts (by decide)
      exact ⟨hfeeds ▸ happ.feeds, hprofiles ▸ happ.profiles, hsearches ▸ happ.searches,
        hcomments ▸ happ.comments, halerts ▸ happ.alerts⟩
  | _ => trivial

/-! ## Feeds -/

theorem shows_feed_modify {f : FeedController → FeedController}
    (hf : ∀ feed : FeedController, feed.Shows G → (f feed).Shows G) :
    ShowsCode G (FeedController.modify i f) :=
  ⟨fun _ h => { h with feeds := forall_mem_modify h.feeds hf }, trivial⟩

theorem shows_feed_get {k : FeedController → Block}
    (hk : ∀ feed : FeedController, feed.Shows G → ShowsCode G (k feed)) :
    ShowsCode G (FeedController.get i k) := by
  intro app h
  cases hi : app.feeds[i]? with
  | none => simp only [hi]; trivial
  | some feed => simp only [hi]; exact hk feed (h.feeds feed (List.mem_of_getElem? hi))

theorem shows_viewModel {k : Post → Block} (hk : ∀ post, G post → ShowsCode G (k post)) :
    ShowsCode G (FeedController.viewModel i c k) := by
  refine shows_feed_get fun feed h => ?_
  cases hc : feed.cells c with
  | none => trivial
  | some post => exact hk post (h.cells c post hc)

theorem shows_push {post : Post} (h : G post) :
    ShowsCode G (FeedController.push { post := some post }) := by
  refine ⟨fun app happ => { happ with feeds := forall_mem_push happ.feeds ⟨?_, ?_, ?_⟩ }, trivial⟩
  · exact fun p hp => by cases hp
  · exact fun p hp => Option.some.inj hp ▸ h
  · exact fun c p hp => by cases hp

theorem shows_showProfile {user : User} : ShowsCode G (FeedController.showProfile user) :=
  ⟨fun _ h => { h with
    profiles := forall_mem_push h.profiles fun _ hp => (List.not_mem_nil hp).elim }, trivial⟩

theorem FeedController.Shows.setCell {f : Post → Post} {feed : FeedController}
    (h : feed.Shows G) (hf : ∀ post, G post → G (f post)) : (feed.setCell c f).Shows G where
  posts := h.posts
  post := h.post
  cells j p hp := by
    by_cases hj : j = c
    · subst hj
      rw [show (feed.setCell j f).cells j = (feed.cells j).map f from Function.update_self ..] at hp
      obtain ⟨post, hpost, rfl⟩ := Option.map_eq_some_iff.mp hp
      exact hf post (h.cells j post hpost)
    · rw [show (feed.setCell c f).cells j = feed.cells j from Function.update_of_ne hj ..] at hp
      exact h.cells j p hp

theorem shows_cellForItemAt : ShowsCode G (FeedController.cellForItemAt i row c) := by
  refine shows_feed_modify fun feed h => ?_
  cases hp : feed.post.or feed.posts[row]? with
  | none => exact h
  | some post =>
      have hpost : G post := by
        rcases Option.or_eq_some_iff.mp hp with h' | ⟨-, h'⟩
        · exact h.post post h'
        · exact h.posts post (List.mem_of_getElem? h')
      refine { h with cells := fun j p hj => ?_ }
      by_cases hc : j = c
      · subst hc
        simp only [Function.update_self, Option.some.injEq] at hj
        exact hj ▸ hpost
      · simp only [Function.update_of_ne hc] at hj
        exact h.cells j p hj

section

variable (hG : ∀ post n x, G post → G { post with likes := n, didLike := x })

include hG

theorem FeedController.Shows.setDidLike {p : DocId} {x : Bool} {feed : FeedController}
    (h : feed.Shows G) : (feed.setDidLike p x).Shows G := by
  unfold FeedController.setDidLike
  split
  · exact { h with posts := forall_mem_modify h.posts fun post => hG post post.likes x }
  · exact h

theorem shows_checkIfUserLikedPosts : ShowsCode G (FeedController.checkIfUserLikedPosts i) := by
  refine shows_feed_get fun feed _ => ?_
  cases feed.post with
  | some post =>
      refine under_checkIfUserLikedPost plain_showing fun x => ⟨shows_feed_modify fun feed h => ?_,
        trivial⟩
      refine { h with post := fun p hp => ?_ }
      obtain ⟨post, hpost, rfl⟩ := Option.map_eq_some_iff.mp hp
      exact hG post post.likes x (h.post post hpost)
  | none =>
      exact .forEach fun post _ => under_checkIfUserLikedPost plain_showing fun x =>
        ⟨shows_feed_modify fun _ h => h.setDidLike hG, trivial⟩

theorem shows_feed_fetchPosts : ShowsCode G (FeedController.fetchPosts i) := by
  refine shows_feed_get fun feed _ => ?_
  cases feed.post with
  | some _ => trivial
  | none =>
      refine under_fetchPosts plain_showing fun documents now hgives => shows_andThen
        (shows_feed_modify fun _ h => { h with posts := fun p hp => ?_ })
        (shows_checkIfUserLikedPosts hG)
      obtain ⟨x, hx, rfl⟩ := List.mem_map.mp hp
      exact hgives rfl documents rfl x hx now

theorem shows_feed_viewDidLoad : ShowsCode G (FeedController.viewDidLoad i) := by
  refine shows_andThen (shows_feed_fetchPosts hG) (shows_feed_get fun feed _ => ?_)
  split
  · exact shows_checkIfUserLikedPosts hG
  · trivial

theorem shows_handleRefresh : ShowsCode G (FeedController.handleRefresh i) :=
  shows_andThen (shows_feed_modify fun _ h => { h with posts := fun _ hp => by cases hp })
    (shows_feed_fetchPosts hG)

theorem shows_didTapLike : ShowsCode G (FeedController.didTapLike i c) := by
  have hcell : ∀ n, ShowsCode G
      (FeedController.modify i (FeedController.setCell c ({ · with likes := n }))) := fun n =>
    shows_feed_modify fun _ h => h.setCell fun post => hG post n post.didLike
  refine shows_viewModel fun post _ => under_tabUser fun _ user _ _ => shows_andThen ?_ ?_
  · exact shows_feed_modify fun _ h => h.setCell fun post => hG post post.likes _
  · split
    · refine under_unlikePost (fun _ => ⟨sends_showing _, sends_showing _, sends_showing _⟩)
        fun e => ?_
      cases e with
      | some _ => trivial
      | none => exact hcell _
    · refine under_likePost (fun _ => ⟨sends_showing _, sends_showing _, sends_showing _⟩)
        fun e => ?_
      cases e with
      | some _ => trivial
      | none =>
          exact shows_andThen (hcell _)
            (under_uploadNotification plain_showing fun _ _ _ _ _ _ => sends_showing _)

theorem shows_onUpload (e : Option FIRError) : ShowsCode G (UploadPostController.onUpload e) := by
  refine shows_andThen (under_showLoader fun _ h => { h with }) ?_
  cases e with
  | some _ => trivial
  | none =>
      intro app _
      cases ht : app.tabFeed with
      | none => simp only [ht]; trivial
      | some feed => simp only [ht]; exact shows_handleRefresh hG

theorem shows_didTapDone {caption : String} :
    ShowsCode G (UploadPostController.didTapDone i caption) := by
  refine Code.Under.get fun app _ => ?_
  split
  · refine shows_andThen (under_showLoader fun _ h => { h with }) ?_
    exact under_uploadPost plain_showing (fun _ _ _ _ _ _ => sends_showing _)
      (fun _ _ => sends_showing _) (shows_onUpload hG)
  · trivial

end

/-! ## The other screens -/

theorem shows_profile_modify {f : ProfileController → ProfileController}
    (hf : ∀ screen, (∀ p ∈ screen.posts, G p) → ∀ p ∈ (f screen).posts, G p) :
    ShowsCode G (ProfileController.modify i f) :=
  ⟨fun _ h => { h with profiles := forall_mem_modify h.profiles hf }, trivial⟩

theorem shows_fetchUserStats : ShowsCode G (ProfileController.fetchUserStats i) :=
  under_profile_get fun _ => under_fetchUserState plain_showing fun _ =>
    shows_profile_modify fun _ h => h

theorem shows_profile_fetchPost : ShowsCode G (ProfileController.fetchPost i) := by
  refine under_profile_get fun _ => under_fetchPostsForUser plain_showing
    fun documents now hgives => shows_profile_modify fun _ _ p hp => ?_
  obtain ⟨x, hx, rfl⟩ := List.mem_map.mp (mem_sortBySeconds.mp hp)
  exact hgives rfl documents rfl x hx now

theorem shows_profile_viewDidLoad : ShowsCode G (ProfileController.viewDidLoad i) := by
  refine shows_andThen ?_ (shows_andThen shows_fetchUserStats shows_profile_fetchPost)
  exact under_profile_get fun _ => under_checkIfUserIsFollowed plain_showing fun _ =>
    shows_profile_modify fun _ h => h

theorem shows_tapActionButton :
    ShowsCode G (ProfileController.handleEditProfileFollowTapped i) := by
  have hfeed : ∀ {user : User} {didFollow : Bool},
      ShowsCode G (PostService.updateUserFeedAfterFollowing user didFollow) :=
    under_updateUserFeedAfterFollowing plain_showing fun _ _ => ⟨sends_showing _, sends_showing _⟩
  refine under_profile_get fun profile => ?_
  cases profile.header with
  | none => trivial
  | some user =>
      refine under_tabUser fun _ currentUser _ _ app _ => ?_
      show Code.Under _ _ _ (if app.currentUser == some user.uid then .done
        else if user.isFollowed then _ else _)
      split
      · trivial
      · split
        · refine under_unfollow (fun _ => ⟨sends_showing _, sends_showing _⟩) fun e => ?_
          exact shows_andThen (shows_profile_modify fun _ h => h) hfeed
        · refine under_follow (fun _ => ⟨sends_showing _, sends_showing _⟩) fun e => ?_
          refine shows_andThen (shows_profile_modify fun _ h => h) (shows_andThen ?_ hfeed)
          exact under_uploadFollowNotification plain_showing fun _ => sends_showing _

theorem shows_profileSelect : ShowsCode G (ProfileController.didSelectItemAt i row) := by
  intro app h
  cases hi : app.profiles[i]? with
  | none => simp only [hi]; trivial
  | some screen =>
      simp only [hi]
      cases hr : screen.posts[row]? with
      | none => trivial
      | some post =>
          exact shows_push
            (h.profiles screen (List.mem_of_getElem? hi) post (List.mem_of_getElem? hr))

theorem shows_handlePostTapped : ShowsCode G (NotificationController.handlePostTapped i c) := by
  refine under_notification_get fun screen => ?_
  cases screen.cells c with
  | none => trivial
  | some n =>
      cases hp : n.postId with
      | none => simp only [hp]; trivial
      | some p =>
          simp only [hp]
          refine shows_andThen (under_showLoader fun _ h => { h with })
            (under_fetchPost plain_showing fun data now hgives => ?_)
          exact shows_andThen (under_showLoader fun _ h => { h with })
            (shows_push (hgives rfl data rfl now))

theorem shows_notificationSelect : ShowsCode G (NotificationController.didSelectRowAt i row) := by
  refine under_notification_get fun screen => ?_
  cases screen.notifications[row]? with
  | none => trivial
  | some n =>
      refine shows_andThen (under_showLoader fun _ h => { h with })
        (under_fetchUserWithUid plain_showing fun _ _ => ?_)
      exact shows_andThen (under_showLoader fun _ h => { h with }) shows_showProfile

theorem shows_search_modify {f : SearchController → SearchController}
    (hf : ∀ screen, (∀ p ∈ screen.posts, G p) → ∀ p ∈ (f screen).posts, G p) :
    ShowsCode G (SearchController.modify i f) :=
  ⟨fun _ h => { h with searches := forall_mem_modify h.searches hf }, trivial⟩

theorem shows_search_viewDidLoad : ShowsCode G (SearchController.viewDidLoad i) := by
  refine shows_andThen (under_fetchUsers plain_showing fun _ => shows_search_modify fun _ h => h)
    (under_fetchPosts plain_showing fun documents now hgives =>
      shows_search_modify fun _ _ p hp => ?_)
  obtain ⟨x, hx, rfl⟩ := List.mem_map.mp hp
  exact hgives rfl documents rfl x hx now

theorem shows_search_selectUser : ShowsCode G (SearchController.didSelectRowAt i row) := by
  refine under_search_get fun search => ?_
  cases search.users[row]? with
  | none => trivial
  | some user => exact shows_showProfile

theorem shows_search_selectPost : ShowsCode G (SearchController.didSelectItemAt i row) := by
  intro app h
  cases hi : app.searches[i]? with
  | none => simp only [hi]; trivial
  | some screen =>
      simp only [hi]
      cases hr : screen.posts[row]? with
      | none => trivial
      | some post =>
          exact shows_push
            (h.searches screen (List.mem_of_getElem? hi) post (List.mem_of_getElem? hr))

theorem shows_didTapComment : ShowsCode G (FeedController.didTapComment i c) :=
  shows_viewModel fun _ hpost =>
    ⟨fun _ h => { h with comments := forall_mem_push h.comments hpost }, trivial⟩

theorem shows_didTapRemove : ShowsCode G (FeedController.didTapRemove i c) :=
  shows_viewModel fun _ hpost => under_tabUser fun _ _ _ _ =>
    ⟨fun _ h => { h with alerts := forall_mem_push h.alerts hpost },
      shows_feed_modify fun _ h => { h with }⟩

theorem shows_answerAlert {k : Nat} {yes : Bool} :
    ShowsCode G (FeedController.answerAlert k yes) := by
  refine Code.Under.get fun app _ => ?_
  cases app.alerts[k]? with
  | none => trivial
  | some x =>
      refine ⟨fun _ h => { h with alerts := fun x hx => h.alerts x (List.mem_of_mem_eraseIdx hx) },
        ?_⟩
      split
      · exact shows_andThen (under_showLoader fun _ h => { h with })
          (shows_andThen (under_removePost (sends_showing _))
            (under_showLoader fun _ h => { h with }))
      · trivial

/-! ## Accounts -/

/-- The screens of the tabs start empty. -/
theorem shows_tab_fetchUser : ShowsCode G MainTabController.fetchUser := by
  refine under_fetchUser plain_showing fun _ _ _ _ _ _ => ⟨fun _ h => ?_, trivial⟩
  refine { h with
    feeds := forall_mem_push h.feeds ⟨?_, ?_, ?_⟩
    profiles := forall_mem_push h.profiles fun _ hp => (List.not_mem_nil hp).elim
    searches := forall_mem_push h.searches fun _ hp => (List.not_mem_nil hp).elim }
  · exact fun _ hp => (List.not_mem_nil hp).elim
  · exact fun _ hp => by cases hp
  · exact fun _ _ hp => by cases hp

theorem shows_handleLogin {email password : String} :
    ShowsCode G (LoginController.handleLogin email password) := by
  refine shows_andThen (under_showLoader fun _ h => { h with })
    (under_signIn plain_showing (fun _ _ _ h => { h with }) fun r _ => ?_)
  cases r with
  | error e => exact under_showLoader fun _ h => { h with }
  | ok uid => exact shows_andThen (under_showLoader fun _ h => { h with }) shows_tab_fetchUser

theorem shows_handleSignUp {email password fullname username : String} {image : UIImage} :
    ShowsCode G
      (RegisterationController.handleSignUp email password fullname username image) := by
  refine shows_andThen (under_showLoader fun _ h => { h with })
    (under_registerUser plain_showing (fun _ _ _ h => { h with }) (fun _ _ => sends_showing _)
      fun e => ?_)
  cases e with
  | some _ => exact under_showLoader fun _ h => { h with }
  | none => exact shows_andThen (under_showLoader fun _ h => { h with }) shows_tab_fetchUser

/-! ## Every action -/

theorem shows_action (hG : ∀ post n x, G post → G { post with likes := n, didLike := x })
    (a : Action) : ShowsCode G a.block := by
  cases a with
  | tabDidLoad => exact shows_tab_fetchUser
  | feedDidLoad => exact shows_feed_viewDidLoad hG
  | feedWillAppear => exact shows_feed_fetchPosts hG
  | feedRefresh => exact shows_handleRefresh hG
  | feedCell => exact shows_cellForItemAt
  | tapLike => exact shows_didTapLike hG
  | tapComment => exact shows_didTapComment
  | tapUser =>
      exact shows_viewModel fun _ _ => under_fetchUserWithUid plain_showing fun _ _ =>
        shows_showProfile
  | tapRemove => exact shows_didTapRemove
  | answerAlert => exact shows_answerAlert
  | profileDidLoad => exact shows_profile_viewDidLoad
  | profileWillAppear => exact shows_andThen shows_profile_fetchPost shows_fetchUserStats
  | profileHeader => exact shows_profile_modify fun _ h => h
  | tapActionButton => exact shows_tapActionButton
  | profileSelect => exact shows_profileSelect
  | tapPost => exact shows_handlePostTapped
  | notificationSelect => exact shows_notificationSelect
  | searchDidLoad => exact shows_search_viewDidLoad
  | searchSelectUser => exact shows_search_selectUser
  | searchSelectPost => exact shows_search_selectPost
  | tapDone => exact shows_didTapDone hG
  | login => exact shows_handleLogin
  | signUp => exact shows_handleSignUp
  | _ =>
      refine shows_of_edits (edits_action fun _ h => h) ?_
      simp [Part.shows, Action.edits]

end

/-! ## Uploads -/

/-- A post that is put in place is as an upload writes it. -/
def PutsUploaded : Write → Prop
  | .setData r data => r.collection = .posts → Uploaded data
  | _ => True

theorem uploaded_tapDone {i : Nat} {caption : String} :
    (Action.tapDone i caption).block.Writes PutsUploaded := by
  refine Code.Under.writes (P := Issuing PutsUploaded) (fun _ hw => hw)
    (Code.Under.get (L := fun _ => True) (A := fun _ _ => True) fun app _ => ?_)
  split
  · refine Code.Under.andThen (under_uploadPost plain_issuing (fun _ uid url e _ _ => ?_)
      (fun _ _ => sends_issuing fun h => by cases h) fun e => ?_) (under_showLoader trivial)
    · exact sends_issuing fun _ => ⟨caption, url, uid, _, e.now, rfl⟩
    · have hnone : Touches (fun _ => False) (UploadPostController.onUpload e) := touches_onUpload e
      exact hnone.under (fun _ h => h.elim) (fun _ _ => trivial) (fun _ => trivial)
        (fun _ => trivial) fun _ => trivial
  · trivial

section

variable {D : Type} [DecidableEq D] {w w' : World village D} {e : Event village D}
  {ok : World village D → Event village D → Prop} {p : DocId}

theorem uploaded_of_sent (hrun : Run ok emptyWorld w) {d : D} {m : Sent village}
    (hm : m ∈ (w.devices d).writes) : m.tag.op = .upload → PutsUploaded m.write := by
  refine sent_of_run (W := fun t wr => Call.op t = .upload → PutsUploaded wr)
    (fun _ => ⟨rfl, rfl⟩) (fun a app => ?_) hrun hm
  by_cases hop : a.op app = .upload
  · have hs := a.starts app
    rw [hop] at hs
    cases hs with
    | upload => exact Code.Writes.start (uploaded_tapDone.mono fun _ hw _ => hw)
  · exact (touches_action a app).mono fun _ _ h => absurd h hop

/-- Every post that was written is as an upload writes it. -/
theorem uploaded_of_wrote (hrun : Run ok emptyWorld w) :
    ∀ x ∈ w.log, ∀ data res, x.obs = .wrote (.setData ⟨.posts, p⟩ data) res → Uploaded data := by
  induction hrun with
  | refl => exact fun x hx => by cases hx
  | @step w w' e hrun _ hstep ih =>
      intro x hx data res ho
      rcases wrote_of_step (stepped_of_step hstep) hx ho with hx | ⟨_, m, ms, -, hw, -, hwr, -⟩
      · exact ih x hx data res ho
      · have hm : m ∈ (w.devices x.device).writes := by rw [hw]; exact List.mem_cons_self
        have hok : WriteOk False w.log m.tag m.write :=
          (((sound_of_run hrun).code.held x.device).writes m hm).1
        have hup := uploaded_of_sent hrun hm
        rw [hwr] at hok hup
        exact hup hok.2 rfl

/-- A stored post is as it was written, but for its likes. -/
theorem written_of_stored (hrun : Run ok emptyWorld w) {data : Dictionary} :
    w.server.docs.get ⟨.posts, p⟩ = some data → ∃ x ∈ w.log, ∃ data₀,
      x.obs = .wrote (.setData ⟨.posts, p⟩ data₀) none ∧
        ∀ key, key ≠ "likes" → data.lookup key = data₀.lookup key := by
  induction hrun generalizing data with
  | refl => intro h; cases h
  | @step w w' e hrun _ hstep ih =>
      intro h
      have hs := stepped_of_step hstep
      have keep : ∀ {old : Dictionary}, w.server.docs.get ⟨.posts, p⟩ = some old →
          (∀ key, key ≠ "likes" → data.lookup key = old.lookup key) → ∃ x ∈ w'.log, ∃ data₀,
            x.obs = .wrote (.setData ⟨.posts, p⟩ data₀) none ∧
              ∀ key, key ≠ "likes" → data.lookup key = data₀.lookup key := fun hold heq => by
        obtain ⟨x, hx, data₀, ho, heq'⟩ := ih hold
        exact ⟨x, hs.log.subset hx, data₀, ho, fun key hk => (heq key hk).trans (heq' key hk)⟩
      cases docsStep hs with
      | same hdocs => exact keep (hdocs ▸ h) fun _ _ => rfl
      | @wrote d m ms _ hw hlog hget =>
          rw [hget] at h
          split at h
          · next hr =>
              cases hwr : m.write with
              | setData r data' =>
                  rw [hwr] at hr hlog h
                  cases hr
                  cases h
                  exact ⟨_, hlog ▸ List.mem_cons_self, data, rfl, fun _ _ => rfl⟩
              | updateData r data' =>
                  have hm : m ∈ (w.devices d).writes := by rw [hw]; exact List.mem_cons_self
                  have hok : WriteOk False w.log m.tag m.write :=
                    (((sound_of_run hrun).code.held d).writes m hm).1
                  rw [hwr] at hr h hok
                  cases hr
                  obtain ⟨n, rfl, -, -⟩ := hok
                  obtain ⟨old, hold, rfl⟩ := Option.map_eq_some_iff.mp h
                  refine keep hold fun key hk => ?_
                  have hne : (key == "likes") = false := by simpa using hk
                  simp [List.lookup_cons, hne]
              | delete r => rw [hwr] at h; cases h
          · exact keep h fun _ _ => rfl

theorem genuine_of_stored (hrun : Run ok emptyWorld w) {data : Dictionary}
    (hget : w.server.docs.get ⟨.posts, p⟩ = some data) (now : Timestamp) :
    Genuine w.log (Post.init p data now) := by
  obtain ⟨x, hx, data₀, ho, heq⟩ := written_of_stored hrun hget
  exact ⟨x, hx, data₀, ho, content_init (uploaded_of_wrote hrun x hx _ _ ho) heq now⟩

/-! ## Runs -/

theorem gives_of_answers (hrun : Run ok emptyWorld w) {d : D} {t : Call} {q : Ask} {a : q.Ans}
    {srv : Server} (hans : e.Answers w d t q a srv) : Gives (Genuine w.log) q a := by
  obtain ⟨c, hv⟩ := hans.serve
  have hv : Server.serve q c w.server = some (a, srv) := hv
  cases q with
  | getDocument r =>
      intro hr data ha now
      obtain ⟨_, p⟩ := r
      subst hr
      cases c <;> cases hv
      · exact genuine_of_stored hrun (Option.some.inj ha) now
      · cases ha
  | getDocuments q =>
      intro hq documents ha x hx now
      cases c <;> cases hv
      · cases ha
        obtain ⟨hget, -⟩ := Documents.mem_select.mp hx
        rw [hq] at hget
        exact genuine_of_stored hrun hget now
      · cases ha
  | _ => trivial

omit [DecidableEq D] in
/-- A copy of a genuine post is genuine, whatever its likes. -/
theorem Genuine.likes {log : Log D} (post : Post) (n : ℤ) (x : Bool) (h : Genuine log post) :
    Genuine log { post with likes := n, didLike := x } := h

theorem Gives.mono {G G' : Post → Prop} (hG : ∀ post, G post → G' post) {q : Ask} {a : q.Ans}
    (h : Gives G q a) : Gives G' q a := by
  cases q with
  | getDocument r => exact fun hr data ha now => hG _ (h hr data ha now)
  | getDocuments q => exact fun hq documents ha x hx now => hG _ (h hq documents ha x hx now)
  | _ => trivial

/-- Whatever is on display was uploaded so, and so is what will be. -/
theorem shows_of_run (hrun : Run ok emptyWorld w) :
    ∀ log, w.log <:+ log →
      w.Under (App.Shows (Genuine log)) (Gives (Genuine log)) fun _ => Showing (Genuine log) := by
  induction hrun with
  | refl =>
      exact fun log _ d => ⟨by constructor <;> simp [emptyWorld], Device.Under.of_idle rfl rfl⟩
  | @step w w' e hrun _ hstep ih =>
      intro log hlog
      have hs := stepped_of_step hstep
      have hbefore : w.log <:+ log := hs.log.trans hlog
      refine ((ih log hbefore).step (fun _ f hf => hf) hs (fun d a he hl => ?_)
        fun d t q a srv hans => ?_).1
      · exact Code.Under.start (fun _ hf => hf) (shows_action Genuine.likes a) hl
      · exact (gives_of_answers hrun hans).mono fun _ h => h.mono hbefore

theorem App.Shows.mono {G G' : Post → Prop} (hG : ∀ post, G post → G' post) {app : App}
    (h : app.Shows G) : app.Shows G' where
  feeds feed hf := ⟨fun p hp => hG p ((h.feeds feed hf).posts p hp),
    fun p hp => hG p ((h.feeds feed hf).post p hp),
    fun c p hp => hG p ((h.feeds feed hf).cells c p hp)⟩
  profiles screen hs p hp := hG p (h.profiles screen hs p hp)
  searches screen hs p hp := hG p (h.searches screen hs p hp)
  comments screen hs := hG _ (h.comments screen hs)
  alerts x hx := hG _ (h.alerts x hx)

/-- A record is written once: nobody finds two versions of it. -/
theorem written_once (hrun : Run ok emptyWorld w) {r : Ref Collection} (hr : Record r)
    {x y : Entry village D} {data data' : Dictionary} (hx : x ∈ w.log) (hy : y ∈ w.log)
    (hox : x.obs = .wrote (.setData r data) none) (hoy : y.obs = .wrote (.setData r data') none) :
    data = data' := by
  induction hrun with
  | refl => cases hx
  | @step w w' e hrun _ hstep ih =>
      have hs := stepped_of_step hstep
      have fresh : ∀ {d : D} {m : Sent village} {ms}, (w.devices d).writes = m :: ms →
          ∀ data₀, m.write = .setData r data₀ → ¬Existed w r := fun hw _ hwr =>
        new_of_sent hrun hr (by rw [hw]; exact List.mem_cons_self) hwr
      rcases wrote_of_step hs hx hox with hx | ⟨_, m, ms, he, hw, -, hwr, -⟩ <;>
        rcases wrote_of_step hs hy hoy with hy | ⟨_, m', ms', he', hw', -, hwr', -⟩
      · exact ih hx hy
      · exact absurd ⟨x, hx, data, hox⟩ (fresh hw' _ hwr')
      · exact absurd ⟨y, hy, data', hoy⟩ (fresh hw _ hwr)
      · rw [he] at he'
        injection he' with hd
        rw [← hd, hw] at hw'
        cases hw'
        rw [hwr] at hwr'
        cases hwr'
        rfl

theorem Genuine.content_eq (hrun : Run ok emptyWorld w) {post post' : Post}
    (h : Genuine w.log post) (h' : Genuine w.log post') (hid : post'.postId = post.postId) :
    post'.content = post.content := by
  obtain ⟨x, hx, data, ho, hpost⟩ := h
  obtain ⟨x', hx', data', ho', hpost'⟩ := h'
  rw [hid] at ho' hpost'
  rw [hpost' post.timestamp, hpost post.timestamp, written_once hrun (Or.inl rfl) hx' hx ho' ho]

/-- In any run, whatever fails or overlaps, a post on any screen is the post
as it was uploaded, but for its likes. It is what is stored under its id, if
that is still there, and what every other screen shows under that id. -/
theorem displayed_as_uploaded (hrun : Run ok emptyWorld w) (d : D) :
    (w.devices d).loc.Shows fun post =>
      Genuine w.log post ∧
      (∀ data, w.server.docs.get ⟨.posts, post.postId⟩ = some data →
        ∀ now, (Post.init post.postId data now).content = post.content) ∧
      ∀ d', (w.devices d').loc.Shows fun copy =>
        copy.postId = post.postId → copy.content = post.content := by
  have hshown := fun d => (shows_of_run hrun w.log (List.suffix_refl _) d).1
  refine (hshown d).mono fun post hpost => ⟨hpost, fun data hdata now => ?_, fun d' => ?_⟩
  · exact hpost.content_eq hrun (genuine_of_stored hrun hdata now) rfl
  · exact (hshown d').mono fun copy hcopy hid => hpost.content_eq hrun hcopy hid

end

/-- Alice has removed her post, and the cell that showed it still does. -/
theorem displayed_ownPostRemoved :
    (ownPostRemoved.devices ()).loc.Shows (fun post =>
      Genuine ownPostRemoved.log post ∧
      (∀ data, ownPostRemoved.server.docs.get ⟨.posts, post.postId⟩ = some data →
        ∀ now, (Post.init post.postId data now).content = post.content) ∧
      ∀ d', (ownPostRemoved.devices d').loc.Shows fun copy =>
        copy.postId = post.postId → copy.content = post.content) := by
  have hrun : Run (fun _ _ => True) emptyWorld ownPostRemoved := by
    unfold ownPostRemoved ownPost
    iterate 7
      refine Policy.run_perform (fun _ _ _ => trivial) trivial ?_
    exact .refl
  exact displayed_as_uploaded hrun ()

example : (Action.shownPost (ownPostRemoved.devices ()).loc 0 0).map Post.postId = some "n3" ∧
    ownPostRemoved.server.docs.get ⟨.posts, "n3"⟩ = none := by decide

end DogVillage
