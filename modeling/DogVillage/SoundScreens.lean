import DogVillage.SoundCode

/-!
# The screens are sound

The controllers' blocks, and with them every user action: what a screen
shows and what it captures for later was decoded from a sound document.
-/

namespace DogVillage

open Async

variable {D : Type} {strict : Prop} {d : D} {t : Call} {log : Log D} {i c : Nat}

/-! ## Feeds -/

theorem FeedOk.modify {app : App} {f : FeedController → FeedController} (ha : AppOk log app)
    (hf : ∀ feed, FeedOk log feed → FeedOk log (f feed)) :
    AppOk log { app with feeds := app.feeds.modify i f } :=
  { ha with feeds := forall_mem_modify ha.feeds hf }

theorem sound_feed_modify {f : FeedController → FeedController}
    (hf : ∀ log' : Log D, log <:+ log' → ∀ feed, FeedOk log' feed → FeedOk log' (f feed)) :
    SoundCode strict d t (FeedController.modify i f) log :=
  sound_modify (fun log' h _ ha => FeedOk.modify ha (hf log' h)) trivial

theorem sound_feed_get {k : FeedController → Block}
    (hk : ∀ log', log <:+ log' → ∀ feed, FeedOk log' feed → SoundCode strict d t (k feed) log') :
    SoundCode strict d t (FeedController.get i k) log :=
  sound_get fun log' h app ha => by
    cases hi : app.feeds[i]? with
    | none => trivial
    | some feed => exact hk log' h feed (ha.feeds feed (List.mem_of_getElem? hi))

theorem FeedOk.one {post : Post} (hp : PostOk log post) : FeedOk log { post := some post } where
  posts _ h := by cases h
  post p h := by cases h; exact hp
  cells _ _ h := by cases h

theorem sound_feed_push {feed : FeedController} (hf : FeedOk log feed) :
    SoundCode strict d t (FeedController.push feed) log :=
  sound_modify (fun _ h _ ha => { ha with feeds := forall_mem_push ha.feeds (hf.mono h) }) trivial

theorem PostOk.didLike {post : Post} {b : Bool} (h : PostOk log post) :
    PostOk log { post with didLike := b } := ⟨h.stored, h.owner, h.member, h.likes⟩

theorem FeedOk.setDidLike {p : DocId} {b : Bool} {feed : FeedController} (h : FeedOk log feed) :
    FeedOk log (feed.setDidLike p b) := by
  unfold FeedController.setDidLike
  split
  · exact { h with posts := forall_mem_modify h.posts fun _ h => h.didLike }
  · exact h

theorem FeedOk.setCell {f : Post → Post} {feed : FeedController} (h : FeedOk log feed)
    (hf : ∀ post, PostOk log post → PostOk log (f post)) : FeedOk log (feed.setCell c f) where
  posts := h.posts
  post := h.post
  cells j p hp := by
    by_cases hj : j = c
    · subst hj
      rw [show (feed.setCell j f).cells j = (feed.cells j).map f from Function.update_self ..] at hp
      obtain ⟨post, hpost, rfl⟩ := Option.map_eq_some_iff.mp hp
      exact hf post (h.cells j post hpost)
    · rw [show (feed.setCell c f).cells j = feed.cells j from Function.update_of_ne hj ..] at hp
      exact h.cells j p hp

theorem FeedOk.bind {post : Post} {rows : Nat → Option Nat} {feed : FeedController}
    (h : FeedOk log feed) (hp : PostOk log post) :
    FeedOk log { feed with cells := Function.update feed.cells c (some post), rows := rows } where
  posts := h.posts
  post := h.post
  cells j p hj := by
    by_cases hc : j = c
    · subst hc
      simp only [Function.update_self, Option.some.injEq] at hj
      exact hj ▸ hp
    · simp only [Function.update_of_ne hc] at hj
      exact h.cells j p hj

theorem sound_checkIfUserLikedPosts :
    SoundCode strict d t (FeedController.checkIfUserLikedPosts i) log := by
  refine sound_feed_get fun _ _ feed hf => ?_
  cases hp : feed.post with
  | some post =>
      refine sound_checkIfUserLikedPost fun _ _ b => ⟨sound_feed_modify fun _ _ feed hf => ?_,
        trivial⟩
      refine { hf with post := fun p hp => ?_ }
      obtain ⟨post, hpost, rfl⟩ := Option.map_eq_some_iff.mp hp
      exact (hf.post post hpost).didLike
  | none =>
      exact Spec.Ok.forEach fun _ _ => sound_checkIfUserLikedPost fun _ _ b =>
        ⟨sound_feed_modify fun _ _ _ hf => hf.setDidLike, trivial⟩

theorem sound_feed_fetchPosts : SoundCode strict d t (FeedController.fetchPosts i) log := by
  refine sound_feed_get fun _ _ feed _ => ?_
  cases feed.post with
  | some _ => trivial
  | none =>
      refine sound_fetchPosts fun _ _ posts hp => Spec.Ok.andThen
        (sound_feed_modify fun _ h feed hf => ?_) sound_checkIfUserLikedPosts
      exact { hf with posts := fun p hm => (hp p hm).mono h }

theorem sound_feed_viewDidLoad : SoundCode strict d t (FeedController.viewDidLoad i) log := by
  refine Spec.Ok.andThen sound_feed_fetchPosts (sound_feed_get fun _ _ feed _ => ?_)
  split
  · exact sound_checkIfUserLikedPosts
  · trivial

theorem sound_feed_handleRefresh : SoundCode strict d t (FeedController.handleRefresh i) log :=
  Spec.Ok.andThen (sound_feed_modify fun _ _ _ hf =>
    { hf with posts := fun _ h => by cases h }) sound_feed_fetchPosts

theorem sound_cellForItemAt {row : Nat} :
    SoundCode strict d t (FeedController.cellForItemAt i row c) log := by
  refine sound_feed_modify fun log' _ feed hf => ?_
  cases hp : feed.post.or feed.posts[row]? with
  | none => exact hf
  | some post =>
      refine hf.bind ?_
      rcases Option.or_eq_some_iff.mp hp with h | ⟨-, h⟩
      · exact hf.post post h
      · exact hf.posts post (List.mem_of_getElem? h)

theorem sound_viewModel {k : Post → Block}
    (hk : ∀ log', log <:+ log' → ∀ post, PostOk log' post → SoundCode strict d t (k post) log') :
    SoundCode strict d t (FeedController.viewModel i c k) log :=
  sound_feed_get fun log' h feed hf => by
    cases hc : feed.cells c with
    | none => trivial
    | some post => exact hk log' h post (hf.cells c post hc)

theorem sound_tabUser {k : User → Block}
    (hk : ∀ log', log <:+ log' → ∀ user, UserOk log' user → SoundCode strict d t (k user) log') :
    SoundCode strict d t (FeedController.tabUser k) log :=
  sound_get fun log' h app ha => by
    cases hu : app.user with
    | none => trivial
    | some user => exact hk log' h user (ha.user user hu)

theorem PostOk.withLikes {post : Post} {n : Int} (h : PostOk log post) (hn : Within log n) :
    PostOk log { post with likes := n } := ⟨h.stored, h.owner, h.member, hn⟩

theorem sound_onLike {post : Post} {user : User} (hp : PostOk log post)
    (hn : Within log (post.likes + 1)) :
    SoundCompletion strict d t (FeedController.onLike i c post user) log := by
  intro log' h error
  cases error with
  | some _ => trivial
  | none =>
      refine Spec.Ok.andThen (sound_feed_modify fun log'' h' feed hf => ?_) ?_
      · exact hf.setCell fun _ hq => hq.withLikes (hn.mono (h.trans h'))
      · exact sound_uploadNotification fun p hq => by cases hq; exact hp.posted.mono h

theorem sound_onUnlike {post : Post} (hn : Within log (post.likes - 1)) :
    SoundCompletion strict d t (FeedController.onUnlike i c post) log := by
  intro log' h error
  cases error with
  | some _ => trivial
  | none =>
      exact sound_feed_modify fun log'' h' feed hf =>
        hf.setCell fun _ hq => hq.withLikes (hn.mono (h.trans h'))

theorem sound_showProfile {user : User} (hu : UserOk log user) :
    SoundCode strict d t (FeedController.showProfile user) log := by
  refine sound_modify (fun log' h app ha =>
    { ha with profiles := forall_mem_push ha.profiles ?_ }) trivial
  exact ⟨Member.mono h hu, fun _ h => (List.not_mem_nil h).elim, fun _ h => by cases h⟩

theorem sound_didTapComment : SoundCode strict d t (FeedController.didTapComment i c) log :=
  sound_viewModel fun _ _ _ hp => sound_modify (fun _ h _ ha =>
    { ha with comments := forall_mem_push ha.comments (hp.mono h) }) trivial

theorem sound_showUserProfile : SoundCode strict d t (FeedController.showUserProfile i c) log :=
  sound_viewModel fun _ _ _ _ => sound_fetchUserWithUid fun _ _ _ hu => sound_showProfile hu

theorem sound_didTapRemove : SoundCode strict d t (FeedController.didTapRemove i c) log :=
  sound_viewModel fun _ _ _ hp => sound_tabUser fun _ h _ hu => sound_modify (fun _ h' _ ha =>
    { ha with
      alerts := forall_mem_push ha.alerts
        (And.intro (hp.mono (h.trans h')) (Member.mono h' hu)) })
    (sound_feed_modify fun _ _ _ hf => { hf with })

/-! ## Profiles -/

theorem sound_profile_modify {f : ProfileController → ProfileController}
    (hf : ∀ log' : Log D, log <:+ log' → ∀ screen, ProfileOk log' screen →
      ProfileOk log' (f screen)) : SoundCode strict d t (ProfileController.modify i f) log :=
  sound_modify (fun log' h _ ha =>
    { ha with profiles := forall_mem_modify ha.profiles (hf log' h) }) trivial

theorem sound_profile_get {k : ProfileController → Block}
    (hk : ∀ log', log <:+ log' → ∀ screen, ProfileOk log' screen →
      SoundCode strict d t (k screen) log') :
    SoundCode strict d t (ProfileController.get i k) log :=
  sound_get fun log' h app ha => by
    cases hi : app.profiles[i]? with
    | none => trivial
    | some screen => exact hk log' h screen (ha.profiles screen (List.mem_of_getElem? hi))

theorem sound_profile_checkIfUserIsFollowed :
    SoundCode strict d t (ProfileController.checkIfUserIsFollowed i) log :=
  sound_profile_get fun _ _ _ _ => sound_checkIfUserIsFollowed fun _ _ _ =>
    sound_profile_modify fun _ _ _ hs => ⟨hs.user, hs.posts, hs.header⟩

theorem sound_fetchUserStats : SoundCode strict d t (ProfileController.fetchUserStats i) log :=
  sound_profile_get fun _ _ _ _ => sound_fetchUserState fun _ _ _ =>
    sound_profile_modify fun _ _ _ hs => ⟨hs.user, hs.posts, hs.header⟩

theorem sound_profile_fetchPost : SoundCode strict d t (ProfileController.fetchPost i) log :=
  sound_profile_get fun _ _ _ _ => sound_fetchPostsForUser fun _ _ _ hp =>
    sound_profile_modify fun _ h _ hs =>
      ⟨hs.user, fun p hm => (hp p hm).mono h, hs.header⟩

theorem sound_profile_viewDidLoad :
    SoundCode strict d t (ProfileController.viewDidLoad i) log :=
  Spec.Ok.andThen sound_profile_checkIfUserIsFollowed
    (Spec.Ok.andThen sound_fetchUserStats sound_profile_fetchPost)

theorem sound_profile_viewWillAppear :
    SoundCode strict d t (ProfileController.viewWillAppear i) log :=
  Spec.Ok.andThen sound_profile_fetchPost sound_fetchUserStats

theorem sound_profileHeader :
    SoundCode strict d t (ProfileController.viewForSupplementaryElement i) log :=
  sound_profile_modify fun _ _ _ hs =>
    ⟨hs.user, hs.posts, fun u hu => by cases hu; exact hs.user⟩

theorem sound_setFollowed {b : Bool} {n : Int} :
    SoundCode strict d t (ProfileController.modify i (ProfileController.setFollowed b n)) log :=
  sound_profile_modify fun _ _ _ hs => ⟨hs.user, hs.posts, hs.header⟩

theorem sound_onUnfollow {user : User} :
    SoundCompletion strict d t (ProfileController.onUnfollow i user) log :=
  fun _ _ _ => Spec.Ok.andThen sound_setFollowed sound_updateUserFeedAfterFollowing

theorem sound_onFollow {user currentUser : User} (hu : UserOk log currentUser) :
    SoundCompletion strict d t (ProfileController.onFollow i user currentUser) log :=
  fun _ h _ => Spec.Ok.andThen sound_setFollowed
    (Spec.Ok.andThen (sound_uploadFollowNotification (Member.mono h hu))
      sound_updateUserFeedAfterFollowing)

theorem sound_tapActionButton :
    SoundCode strict d t (ProfileController.handleEditProfileFollowTapped i) log := by
  refine sound_profile_get fun _ _ screen hs => ?_
  cases hh : screen.header with
  | none => trivial
  | some user =>
      have hu := hs.header user hh
      refine sound_tabUser fun _ h₁ currentUser hc => sound_get fun _ h₂ app _ => ?_
      split
      · trivial
      · split
        · exact sound_unfollow sound_onUnfollow
        · exact sound_follow (Member.mono (h₁.trans h₂) hu) (sound_onFollow (Member.mono h₂ hc))

theorem sound_profileSelect {row : Nat} :
    SoundCode strict d t (ProfileController.didSelectItemAt i row) log := by
  refine sound_profile_get fun _ _ screen hs => ?_
  cases hr : screen.posts[row]? with
  | none => trivial
  | some post => exact sound_feed_push (FeedOk.one (hs.posts post (List.mem_of_getElem? hr)))

/-! ## Notifications -/

theorem sound_notification_modify {f : NotificationController → NotificationController}
    (hf : ∀ log' : Log D, log <:+ log' → ∀ screen, NotificationsOk log' screen →
      NotificationsOk log' (f screen)) :
    SoundCode strict d t (NotificationController.modify i f) log :=
  sound_modify (fun log' h _ ha =>
    { ha with notifications := forall_mem_modify ha.notifications (hf log' h) }) trivial

theorem sound_notification_get {k : NotificationController → Block}
    (hk : ∀ log', log <:+ log' → ∀ screen, NotificationsOk log' screen →
      SoundCode strict d t (k screen) log') :
    SoundCode strict d t (NotificationController.get i k) log :=
  sound_get fun log' h app ha => by
    cases hi : app.notifications[i]? with
    | none => trivial
    | some screen => exact hk log' h screen (ha.notifications screen (List.mem_of_getElem? hi))

theorem NotificationsOk.setIsFollowed {id : DocId} {b : Bool} {screen : NotificationController}
    (h : NotificationsOk log screen) : NotificationsOk log (screen.setIsFollowed id b) := by
  unfold NotificationController.setIsFollowed
  split
  · exact { h with notifications := forall_mem_modify h.notifications fun _ h => h }
  · exact h

theorem NotificationsOk.toggleCell {screen : NotificationController}
    (h : NotificationsOk log screen) : NotificationsOk log (screen.toggleCell c) where
  notifications := h.notifications
  cells j n hn := by
    by_cases hj : j = c
    · subst hj
      simp only [NotificationController.toggleCell, Function.update_self,
        Option.map_eq_some_iff] at hn
      obtain ⟨x, hx, rfl⟩ := hn
      exact h.cells j x hx
    · simp only [NotificationController.toggleCell, Function.update_of_ne hj] at hn
      exact h.cells j n hn

theorem sound_notification_checkIfUserIsFollowed :
    SoundCode strict d t (NotificationController.checkIfUserIsFollowed i) log := by
  refine sound_notification_get fun _ _ screen _ => Spec.Ok.forEach fun notification _ => ?_
  split
  · exact sound_checkIfUserIsFollowed fun _ _ _ =>
      sound_notification_modify fun _ _ _ hs => hs.setIsFollowed
  · trivial

theorem sound_fetchNotifications :
    SoundCode strict d t (NotificationController.fetchNotifications i) log :=
  sound_fetchNotification fun _ _ _ hl => Spec.Ok.andThen
    (sound_notification_modify fun _ h _ hs =>
      { hs with notifications := fun n hn => Member.mono h (hl n hn) })
    sound_notification_checkIfUserIsFollowed

theorem sound_notificationRefresh :
    SoundCode strict d t (NotificationController.handleRefresh i) log :=
  ⟨Spec.Ok.andThen (sound_notification_modify fun _ _ _ hs =>
    { hs with notifications := fun _ h => by cases h }) sound_fetchNotifications, trivial⟩

theorem sound_notificationCell {row : Nat} :
    SoundCode strict d t (NotificationController.cellForRowAt i row c) log := by
  refine sound_notification_modify fun _ _ screen hs => ?_
  split
  · next n hn =>
      refine { hs with cells := fun j x hx => ?_ }
      by_cases hj : j = c
      · subst hj
        simp only [Function.update_self, Option.some.injEq] at hx
        exact hx ▸ hs.notifications n (List.mem_of_getElem? hn)
      · simp only [Function.update_of_ne hj] at hx
        exact hs.cells j x hx
  · exact hs

theorem sound_notificationSelect {row : Nat} :
    SoundCode strict d t (NotificationController.didSelectRowAt i row) log := by
  refine sound_notification_get fun _ _ screen _ => ?_
  split
  · trivial
  · exact Spec.Ok.andThen sound_showLoader (sound_fetchUserWithUid fun _ _ _ hu =>
      Spec.Ok.andThen sound_showLoader (sound_showProfile hu))

theorem sound_notification_viewModel {k : Notification → Block}
    (hk : ∀ log', log <:+ log' → ∀ n, NotificationOk log' n → SoundCode strict d t (k n) log') :
    SoundCode strict d t (NotificationController.viewModel i c k) log :=
  sound_notification_get fun log' h screen hs => by
    cases hc : screen.cells c with
    | none => trivial
    | some n => exact hk log' h n (hs.cells c n hc)

theorem sound_onTap : SoundCompletion strict d t (NotificationController.onTap i c) log :=
  fun _ _ _ => Spec.Ok.andThen sound_showLoader
    (sound_notification_modify fun _ _ _ hs => hs.toggleCell)

theorem sound_tapFollow :
    SoundCode strict d t (NotificationController.handleFollowTapped i c) log := by
  refine sound_notification_viewModel fun _ _ n hn => ?_
  split
  · exact Spec.Ok.andThen sound_showLoader (sound_unfollow sound_onTap)
  · exact Spec.Ok.andThen sound_showLoader (sound_follow hn sound_onTap)

theorem sound_tapPost : SoundCode strict d t (NotificationController.handlePostTapped i c) log := by
  refine sound_notification_viewModel fun _ _ n _ => ?_
  split
  · trivial
  · exact Spec.Ok.andThen sound_showLoader (sound_fetchPost fun _ _ _ hp =>
      Spec.Ok.andThen sound_showLoader (sound_feed_push (FeedOk.one hp)))

/-! ## Search -/

theorem sound_search_modify {f : SearchController → SearchController}
    (hf : ∀ log' : Log D, log <:+ log' → ∀ screen, SearchOk log' screen →
      SearchOk log' (f screen)) : SoundCode strict d t (SearchController.modify i f) log :=
  sound_modify (fun log' h _ ha =>
    { ha with searches := forall_mem_modify ha.searches (hf log' h) }) trivial

theorem sound_search_get {k : SearchController → Block}
    (hk : ∀ log', log <:+ log' → ∀ screen, SearchOk log' screen →
      SoundCode strict d t (k screen) log') :
    SoundCode strict d t (SearchController.get i k) log :=
  sound_get fun log' h app ha => by
    cases hi : app.searches[i]? with
    | none => trivial
    | some screen => exact hk log' h screen (ha.searches screen (List.mem_of_getElem? hi))

theorem sound_search_viewDidLoad : SoundCode strict d t (SearchController.viewDidLoad i) log :=
  Spec.Ok.andThen
    (sound_fetchUsers fun _ _ _ hu => sound_search_modify fun _ h _ hs =>
      { hs with users := fun u hm => Member.mono h (hu u hm) })
    (sound_fetchPosts fun _ _ _ hp => sound_search_modify fun _ h _ hs =>
      { hs with posts := fun p hm => (hp p hm).mono h })

theorem sound_searchSelectUser {row : Nat} :
    SoundCode strict d t (SearchController.didSelectRowAt i row) log := by
  refine sound_search_get fun _ _ screen hs => ?_
  cases hr : screen.users[row]? with
  | none => trivial
  | some user => exact sound_showProfile (hs.users user (List.mem_of_getElem? hr))

theorem sound_searchSelectPost {row : Nat} :
    SoundCode strict d t (SearchController.didSelectItemAt i row) log := by
  refine sound_search_get fun _ _ screen hs => ?_
  cases hr : screen.posts[row]? with
  | none => trivial
  | some post => exact sound_feed_push (FeedOk.one (hs.posts post (List.mem_of_getElem? hr)))

/-! ## Comments -/

theorem sound_onComment {post : Post} {user : User} (hp : PostOk log post) :
    SoundCompletion strict d t (CommentController.onComment post user) log :=
  fun _ h _ => Spec.Ok.andThen sound_showLoader
    (sound_uploadNotification fun p hq => by cases hq; exact hp.posted.mono h)

theorem sound_inputView {comment : String} :
    SoundCode strict d t (CommentController.inputView i comment) log := by
  refine sound_get fun _ _ app ha => ?_
  cases hi : app.comments[i]? with
  | none => trivial
  | some screen =>
      have hp := ha.comments screen (List.mem_of_getElem? hi)
      exact sound_tabUser fun _ h _ hu => Spec.Ok.andThen sound_showLoader
        (sound_uploadComment hu (sound_onComment (hp.mono h)))

/-! ## Tabs -/

theorem sound_setUser {user : User} (hu : UserOk log user) :
    SoundCode strict d t (MainTabController.setUser user) log := by
  refine sound_modify (fun log' h app ha => ?_) trivial
  have hu := Member.mono h hu
  refine { ha with
    user := fun u h => by cases h; exact hu
    feeds := forall_mem_push ha.feeds ?_
    searches := forall_mem_push ha.searches ?_
    notifications := forall_mem_push ha.notifications ?_
    profiles := forall_mem_push ha.profiles ?_ }
  · exact ⟨fun _ h => (List.not_mem_nil h).elim, fun _ h => (nomatch h), fun _ _ h => (nomatch h)⟩
  · exact ⟨hu, fun _ h => (List.not_mem_nil h).elim, fun _ h => (nomatch h)⟩
  · exact ⟨fun _ h => (List.not_mem_nil h).elim, fun _ _ h => (nomatch h)⟩
  · exact ⟨fun _ h => (List.not_mem_nil h).elim, fun _ h => (List.not_mem_nil h).elim⟩

theorem sound_tab_fetchUser : SoundCode strict d t MainTabController.fetchUser log :=
  sound_fetchUser fun _ _ _ hu => sound_setUser hu

theorem sound_didFinishPicking {image : UIImage} :
    SoundCode strict d t (MainTabController.didFinishPicking image) log := by
  refine sound_modify (fun _ _ app ha =>
    { ha with uploads := forall_mem_push ha.uploads ?_ }) trivial
  exact fun u hu => ha.user u hu

theorem sound_onUpload : SoundCompletion strict d t UploadPostController.onUpload log := by
  refine fun _ _ error => Spec.Ok.andThen sound_showLoader ?_
  cases error with
  | some _ => trivial
  | none =>
      refine sound_get fun _ _ app _ => ?_
      cases app.tabFeed with
      | none => trivial
      | some feed => exact sound_feed_handleRefresh

/-! ## Authentication -/

theorem sound_login {email password : String} :
    SoundCode strict d t (LoginController.handleLogin email password) log :=
  Spec.Ok.andThen sound_showLoader (sound_signIn
    (fun _ _ _ _ => Spec.Ok.andThen sound_showLoader sound_tab_fetchUser)
    fun _ _ _ => sound_showLoader)

theorem sound_onRegister : SoundCompletion strict d t RegisterationController.onRegister log := by
  intro _ _ error
  cases error with
  | some _ => exact sound_showLoader
  | none => exact Spec.Ok.andThen sound_showLoader sound_tab_fetchUser

theorem sound_signUp {email password fullname username : String} {image : UIImage}
    (ht : t.op = .register) :
    SoundCode strict d t
      (RegisterationController.handleSignUp email password fullname username image) log :=
  Spec.Ok.andThen sound_showLoader (sound_registerUser ht sound_onRegister)

theorem sound_resetPassword {email : String} :
    SoundCode strict d t (ResetPasswordController.handleResetPassword email) log := by
  refine Spec.Ok.andThen sound_showLoader ⟨trivial, fun _ _ (error : Option FIRError) _ => ?_,
    trivial⟩
  cases error with
  | some _ => exact sound_showLoader
  | none => trivial

theorem sound_editProfile {username fullname : String} {image : UIImage} :
    SoundCode strict d t (ResetInfomation.handleSignUp username fullname image) log :=
  Spec.Ok.andThen sound_showLoader (Spec.Ok.andThen sound_upDateUser sound_showLoader)

/-! ## Every action -/

/-- An alert confirmed on a post of the account signed in, as far as it is
carried out. -/
def OwnRemoval (app : App) (a : Action) : Prop :=
  ∀ k post user, a = .answerAlert k true → app.alerts[k]? = some (post, user) →
    app.currentUser = some user.uid → post.ownerUid = user.uid

theorem AppOk.shownPost {app : App} {post : Post} (ha : AppOk log app)
    (h : Action.shownPost app i c = some post) : PostOk log post := by
  obtain ⟨feed, hf, hc⟩ := Option.bind_eq_some_iff.mp h
  exact (ha.feeds feed (List.mem_of_getElem? hf)).cells c post hc

/-- A like counts from the tap on. -/
theorem likeCalls_like {u : Option Uid} {post : Post} :
    likeCalls (⟨d, ⟨u, .like post⟩, .acted⟩ :: log : Log D) = likeCalls log + 1 :=
  List.countP_cons_of_pos rfl

theorem sound_tapLike {app : App} (ha : AppOk log app) :
    SoundCode strict d ⟨app.currentUser, (Action.tapLike i c).op app⟩
      ((Action.tapLike i c).block.start app)
      (⟨d, ⟨app.currentUser, (Action.tapLike i c).op app⟩, .acted⟩ :: log) := by
  have htap := likeTap i c app
  generalize (Action.tapLike i c).op app = op at htap ⊢
  generalize (Action.tapLike i c).block.start app = b at htap ⊢
  have hgrow : log <:+ (⟨d, ⟨app.currentUser, op⟩, .acted⟩ :: log) := List.suffix_cons _ _
  have htoggle : ∀ log' : Log D, ∀ app, AppOk log' app → AppOk log' (toggled i c app) :=
    fun _ _ ha => FeedOk.modify ha fun _ hf => hf.setCell fun _ hp => hp.didLike
  cases htap with
  | none => trivial
  | dropped => exact sound_modify (fun _ _ => htoggle _) trivial
  | @like post user uid hshown _ huid hlike =>
      have hp := ha.shownPost hshown
      have hn : Within (⟨d, ⟨app.currentUser, .like post⟩, .acted⟩ :: log) (post.likes + 1) := by
        obtain ⟨h0, h1⟩ := hp.likes
        refine ⟨by omega, ?_⟩
        rw [likeCalls_like]
        omega
      have hp := hp.mono hgrow
      exact sound_modify (fun _ _ => htoggle _) (sound_likeWrites (by rw [huid]) hp hn
        ((ha.currentUser uid huid).mono hgrow) (sound_onLike hp hn))
  | @unlike post user uid hshown _ huid hlike hpos =>
      have hp := (ha.shownPost hshown).mono hgrow
      have hn : Within (⟨d, ⟨app.currentUser, .unlike post⟩, .acted⟩ :: log)
          (post.likes - 1) := by
        obtain ⟨h0, h1⟩ := hp.likes
        exact ⟨by omega, by omega⟩
      exact sound_modify (fun _ _ => htoggle _) (sound_unlikeWrites (by rw [huid]) hn (sound_onUnlike hn))

theorem sound_tapDone {caption : String} {app : App} (ha : AppOk log app) :
    SoundCode strict d ⟨app.currentUser, (Action.tapDone i caption).op app⟩
      ((Action.tapDone i caption).block.start app) log := by
  have htap := uploadTap i caption app
  generalize (Action.tapDone i caption).op app = op at htap ⊢
  generalize (Action.tapDone i caption).block.start app = b at htap ⊢
  cases htap with
  | none => trivial
  | dropped => exact sound_showLoader
  | upload _ huid =>
      exact sound_modify (fun _ _ _ ha => { ha with })
        (sound_uploadWrites (by rw [huid]) (ha.currentUser _ huid) sound_onUpload)

theorem sound_answerAlert {k : Nat} {yes : Bool} {app : App} (ha : AppOk log app)
    (hown : strict → OwnRemoval app (.answerAlert k yes)) :
    SoundCode strict d ⟨app.currentUser, (Action.answerAlert k yes).op app⟩
      ((Action.answerAlert k yes).block.start app) log := by
  have htap := removeTap k yes app
  generalize (Action.answerAlert k yes).op app = op at htap ⊢
  generalize (Action.answerAlert k yes).block.start app = b at htap ⊢
  have hdismiss : ∀ log' : Log D, log <:+ log' → ∀ app, AppOk log' app →
      AppOk log' (dismiss k app) := fun _ _ _ ha =>
    { ha with alerts := fun x hx => ha.alerts x (List.mem_of_mem_eraseIdx hx) }
  cases htap with
  | none => trivial
  | no => exact sound_modify hdismiss trivial
  | kept =>
      exact sound_modify hdismiss (sound_modify (fun _ _ _ ha => { ha with }) sound_showLoader)
  | @removed post user hk hyes huid =>
      subst hyes
      refine sound_modify hdismiss (sound_modify (fun _ _ _ ha => { ha with })
        ⟨⟨Or.inl rfl, fun hs => ⟨user.uid, huid, ?_⟩⟩, sound_done_completion,
          fun _ _ _ => sound_showLoader⟩)
      rw [← hown hs k post user rfl hk huid]
      exact (ha.alerts _ (List.mem_of_getElem? hk)).1.owner

theorem sound_deleteAccount {app : App} :
    SoundCode strict d ⟨app.currentUser, Action.deleteAccount.op app⟩
      (Action.deleteAccount.block.start app) log := by
  have htap := deleteTap app
  generalize Action.deleteAccount.block.start app = b at htap ⊢
  cases htap with
  | none => exact sound_modify (fun _ _ _ ha => { ha with }) sound_showLoader
  | delete huid =>
      exact sound_modify (fun _ _ _ ha => { ha with })
        ⟨sound_deleteWrites (by rw [huid]; rfl), sound_showLoader⟩

/-- Whatever the user does, from sound memory, is sound from the moment it
is on the log. -/
theorem sound_action (a : Action) {app : App} (ha : AppOk log app)
    (hown : strict → OwnRemoval app a) :
    SoundCode strict d ⟨app.currentUser, a.op app⟩ (a.block.start app)
      (⟨d, ⟨app.currentUser, a.op app⟩, .acted⟩ :: log) := by
  have ha' := ha.mono (List.suffix_cons ⟨d, ⟨app.currentUser, a.op app⟩, .acted⟩ log)
  have hstart : ∀ {t : Call} {b : Block} {log' : Log D}, AppOk log' app →
      SoundCode strict d t b log' → SoundCode strict d t (b.start app) log' :=
    fun h hb => Spec.Ok.start hb h trivial
  cases a with
  | tapLike i c => exact sound_tapLike ha
  | tapDone i caption => exact sound_tapDone ha'
  | answerAlert k yes => exact sound_answerAlert ha' hown
  | deleteAccount => exact sound_deleteAccount
  | tabDidLoad => exact hstart ha' sound_tab_fetchUser
  | didFinishPicking image => exact hstart ha' sound_didFinishPicking
  | feedDidLoad i => exact hstart ha' sound_feed_viewDidLoad
  | feedWillAppear i => exact hstart ha' sound_feed_fetchPosts
  | feedRefresh i => exact hstart ha' sound_feed_handleRefresh
  | feedCell i row c => exact hstart ha' sound_cellForItemAt
  | tapComment i c => exact hstart ha' sound_didTapComment
  | tapUser i c => exact hstart ha' sound_showUserProfile
  | tapRemove i c => exact hstart ha' sound_didTapRemove
  | logout =>
      exact hstart ha' (sound_modify (fun _ _ _ ha =>
        { ha with currentUser := fun _ h => by cases h }) trivial)
  | profileDidLoad i => exact hstart ha' sound_profile_viewDidLoad
  | profileWillAppear i => exact hstart ha' sound_profile_viewWillAppear
  | profileHeader i => exact hstart ha' sound_profileHeader
  | tapActionButton i => exact hstart ha' sound_tapActionButton
  | profileSelect i row => exact hstart ha' sound_profileSelect
  | notificationDidLoad i => exact hstart ha' sound_fetchNotifications
  | notificationRefresh i => exact hstart ha' sound_notificationRefresh
  | notificationCell i row c => exact hstart ha' sound_notificationCell
  | tapFollow i c => exact hstart ha' sound_tapFollow
  | tapPost i c => exact hstart ha' sound_tapPost
  | notificationSelect i row => exact hstart ha' sound_notificationSelect
  | searchDidLoad i => exact hstart ha' sound_search_viewDidLoad
  | searchSelectUser i row => exact hstart ha' sound_searchSelectUser
  | searchSelectPost i row => exact hstart ha' sound_searchSelectPost
  | sendComment i comment => exact hstart ha' sound_inputView
  | login email password => exact hstart ha' sound_login
  | signUp email password fullname username image => exact hstart ha' (sound_signUp rfl)
  | resetPassword email => exact hstart ha' sound_resetPassword
  | editProfile username fullname image => exact hstart ha' sound_editProfile

end DogVillage
