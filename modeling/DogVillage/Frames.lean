import DogVillage.Calls

/-!
# Which part of the memory an action changes

The footprint of every user action in the memory of its device, whatever
its calls answer: no action changes any other part.
-/

namespace DogVillage

open Async

/-- The parts of `App`. -/
inductive Part
  | currentUser
  | user
  | hud
  | feeds
  | profiles
  | notifications
  | searches
  | comments
  | uploads
  | alerts
  | tabFeed
deriving DecidableEq, Repr

def Part.Same (app app' : App) : Part → Prop
  | currentUser => app'.currentUser = app.currentUser
  | user => app'.user = app.user
  | hud => app'.hud = app.hud
  | feeds => app'.feeds = app.feeds
  | profiles => app'.profiles = app.profiles
  | notifications => app'.notifications = app.notifications
  | searches => app'.searches = app.searches
  | comments => app'.comments = app.comments
  | uploads => app'.uploads = app.uploads
  | alerts => app'.alerts = app.alerts
  | tabFeed => app'.tabFeed = app.tabFeed

/-- The change is of parts in `F` only. -/
def Only (F : Part → Prop) (f : App → App) : Prop := ∀ app p, ¬F p → p.Same app (f app)

/-- What is seen, when it is a change, is of parts in `F` only. -/
def Frame (F : Part → Prop) : Obs sig → Prop
  | .changed f => Only F f
  | _ => True

/-- The code only changes parts in `F`. -/
abbrev Edits (F : Part → Prop) (b : Block) : Prop :=
  b.Under (fun _ => True) (fun _ _ => True) (Frame F)

variable {F : Part → Prop} {i j c row : Nat}

theorem plain_frame : Plain (Frame F) := ⟨fun _ _ => trivial, fun _ => trivial⟩

theorem sends_frame (w : Write) : Sends (Frame F) w := ⟨trivial, fun _ => trivial⟩

/-! ## Changes of one part -/

theorem only_currentUser (h : F .currentUser) {g : App → Option Uid} :
    Only F fun app => { app with currentUser := g app } := by
  intro app p hp
  cases p <;> first | rfl | exact absurd h hp

theorem only_hud (h : F .hud) {b : Bool} : Only F ({ · with hud := b }) := by
  intro app p hp
  cases p <;> first | rfl | exact absurd h hp

theorem only_feeds (h : F .feeds) {g : App → List FeedController} :
    Only F fun app => { app with feeds := g app } := by
  intro app p hp
  cases p <;> first | rfl | exact absurd h hp

theorem only_profiles (h : F .profiles) {g : App → List ProfileController} :
    Only F fun app => { app with profiles := g app } := by
  intro app p hp
  cases p <;> first | rfl | exact absurd h hp

theorem only_notifications (h : F .notifications) {g : App → List NotificationController} :
    Only F fun app => { app with notifications := g app } := by
  intro app p hp
  cases p <;> first | rfl | exact absurd h hp

theorem only_searches (h : F .searches) {g : App → List SearchController} :
    Only F fun app => { app with searches := g app } := by
  intro app p hp
  cases p <;> first | rfl | exact absurd h hp

theorem only_comments (h : F .comments) {g : App → List CommentController} :
    Only F fun app => { app with comments := g app } := by
  intro app p hp
  cases p <;> first | rfl | exact absurd h hp

theorem only_uploads (h : F .uploads) {g : App → List UploadPostController} :
    Only F fun app => { app with uploads := g app } := by
  intro app p hp
  cases p <;> first | rfl | exact absurd h hp

theorem only_alerts (h : F .alerts) {g : App → List (Post × User)} :
    Only F fun app => { app with alerts := g app } := by
  intro app p hp
  cases p <;> first | rfl | exact absurd h hp

/-! ## Feeds -/

theorem edits_andThen {b b' : Block} (h : Edits F b) (h' : Edits F b') : Edits F (b >> b') :=
  Code.Under.andThen h' h

theorem edits_loader (h : F .hud) {b : Bool} : Edits F (showLoader b) :=
  under_showLoader (only_hud h)

theorem edits_checkIfUserLikedPosts (h : F .feeds) :
    Edits F (FeedController.checkIfUserLikedPosts i) := by
  refine under_feed_get fun feed => ?_
  cases feed.post with
  | some post =>
      exact under_checkIfUserLikedPost plain_frame fun b => ⟨⟨only_feeds h, trivial⟩, trivial⟩
  | none =>
      refine .forEach fun post _ => ?_
      exact under_checkIfUserLikedPost plain_frame fun b => ⟨⟨only_feeds h, trivial⟩, trivial⟩

theorem edits_feed_fetchPosts (h : F .feeds) : Edits F (FeedController.fetchPosts i) := by
  refine under_feed_get fun feed => ?_
  cases feed.post with
  | some _ => trivial
  | none =>
      refine under_fetchPosts plain_frame fun _ _ _ => edits_andThen ?_ ?_
      · exact ⟨only_feeds h, trivial⟩
      · exact edits_checkIfUserLikedPosts h

theorem edits_feed_viewDidLoad (h : F .feeds) : Edits F (FeedController.viewDidLoad i) := by
  refine edits_andThen (edits_feed_fetchPosts h) (under_feed_get fun feed => ?_)
  split
  · exact edits_checkIfUserLikedPosts h
  · trivial

theorem edits_handleRefresh (h : F .feeds) : Edits F (FeedController.handleRefresh i) :=
  edits_andThen ⟨only_feeds h, trivial⟩ (edits_feed_fetchPosts h)

theorem edits_push (h : F .feeds) {feed : FeedController} : Edits F (FeedController.push feed) :=
  ⟨only_feeds h, trivial⟩

theorem edits_showProfile (h : F .profiles) {user : User} :
    Edits F (FeedController.showProfile user) := ⟨only_profiles h, trivial⟩

theorem edits_uploadNotification {uid : Uid} {fromUser : User} {type : NotificationType}
    {post : Option Post} :
    Edits F (NotificationService.uploadNotification uid fromUser type post) :=
  under_uploadNotification plain_frame fun _ _ _ _ _ _ => sends_frame _

theorem edits_didTapLike (h : F .feeds) : Edits F (FeedController.didTapLike i c) := by
  refine under_viewModel fun post => under_tabUser fun _ user _ _ => edits_andThen ?_ ?_
  · exact ⟨only_feeds h, trivial⟩
  · split
    · refine under_unlikePost (fun _ => ⟨sends_frame _, sends_frame _, sends_frame _⟩) fun e => ?_
      cases e with
      | some _ => trivial
      | none => exact ⟨only_feeds h, trivial⟩
    · refine under_likePost (fun _ => ⟨sends_frame _, sends_frame _, sends_frame _⟩) fun e => ?_
      cases e with
      | some _ => trivial
      | none => exact edits_andThen ⟨only_feeds h, trivial⟩ edits_uploadNotification

theorem edits_answerAlert (h : F .alerts) (hhud : F .hud) {k : Nat} {yes : Bool} :
    Edits F (FeedController.answerAlert k yes) := by
  refine Code.Under.get fun app _ => ?_
  cases app.alerts[k]? with
  | none => trivial
  | some x =>
      refine ⟨only_alerts h, ?_⟩
      split
      · refine edits_andThen (edits_loader hhud) (edits_andThen ?_ (edits_loader hhud))
        exact under_removePost (sends_frame _)
      · trivial

/-! ## Profiles -/

theorem edits_profile_check (h : F .profiles) :
    Edits F (ProfileController.checkIfUserIsFollowed i) :=
  under_profile_get fun _ => under_checkIfUserIsFollowed plain_frame fun _ =>
    ⟨only_profiles h, trivial⟩

theorem edits_fetchUserStats (h : F .profiles) : Edits F (ProfileController.fetchUserStats i) :=
  under_profile_get fun _ => under_fetchUserState plain_frame fun _ => ⟨only_profiles h, trivial⟩

theorem edits_profile_fetchPost (h : F .profiles) : Edits F (ProfileController.fetchPost i) :=
  under_profile_get fun _ => under_fetchPostsForUser plain_frame fun _ _ _ =>
    ⟨only_profiles h, trivial⟩

theorem edits_updateUserFeedAfterFollowing {user : User} {didFollow : Bool} :
    Edits F (PostService.updateUserFeedAfterFollowing user didFollow) :=
  under_updateUserFeedAfterFollowing plain_frame fun _ _ => ⟨sends_frame _, sends_frame _⟩

theorem edits_tapActionButton (h : F .profiles) :
    Edits F (ProfileController.handleEditProfileFollowTapped i) := by
  refine under_profile_get fun profile => ?_
  cases profile.header with
  | none => trivial
  | some user =>
      refine under_tabUser fun _ currentUser _ _ app _ => ?_
      show Code.Under _ _ _ (if app.currentUser == some user.uid then .done
        else if user.isFollowed then _ else _)
      split
      · trivial
      · split
        · refine under_unfollow (fun _ => ⟨sends_frame _, sends_frame _⟩) fun e => ?_
          exact edits_andThen ⟨only_profiles h, trivial⟩ edits_updateUserFeedAfterFollowing
        · refine under_follow (fun _ => ⟨sends_frame _, sends_frame _⟩) fun e => ?_
          refine edits_andThen ⟨only_profiles h, trivial⟩
            (edits_andThen ?_ edits_updateUserFeedAfterFollowing)
          exact under_uploadFollowNotification plain_frame fun _ => sends_frame _

theorem edits_profile_select (h : F .feeds) : Edits F (ProfileController.didSelectItemAt i row) := by
  refine under_profile_get fun profile => ?_
  cases profile.posts[row]? with
  | none => trivial
  | some post => exact edits_push h

/-! ## Notifications -/

theorem edits_notification_check (h : F .notifications) :
    Edits F (NotificationController.checkIfUserIsFollowed i) := by
  refine under_notification_get fun screen => .forEach fun n _ => ?_
  split
  · exact under_checkIfUserIsFollowed plain_frame fun _ => ⟨only_notifications h, trivial⟩
  · trivial

theorem edits_fetchNotifications (h : F .notifications) :
    Edits F (NotificationController.fetchNotifications i) :=
  under_fetchNotification plain_frame fun _ =>
    edits_andThen ⟨only_notifications h, trivial⟩ (edits_notification_check h)

theorem edits_notification_handleRefresh (h : F .notifications) :
    Edits F (NotificationController.handleRefresh i) :=
  ⟨edits_andThen ⟨only_notifications h, trivial⟩ (edits_fetchNotifications h), trivial⟩

theorem edits_notificationSelect (h : F .profiles) (hhud : F .hud) :
    Edits F (NotificationController.didSelectRowAt i row) := by
  refine under_notification_get fun screen => ?_
  cases screen.notifications[row]? with
  | none => trivial
  | some n =>
      refine edits_andThen (edits_loader hhud) (under_fetchUserWithUid plain_frame fun _ _ => ?_)
      exact edits_andThen (edits_loader hhud) (edits_showProfile h)

theorem edits_notification_viewModel {k : Notification → Block} (hk : ∀ n, Edits F (k n)) :
    Edits F (NotificationController.viewModel i c k) := by
  refine under_notification_get fun screen => ?_
  cases screen.cells c with
  | none => trivial
  | some n => exact hk n

theorem edits_onTap (h : F .notifications) (hhud : F .hud) (e : Option FIRError) :
    Edits F (NotificationController.onTap i c e) :=
  edits_andThen (edits_loader hhud) ⟨only_notifications h, trivial⟩

theorem edits_handleFollowTapped (h : F .notifications) (hhud : F .hud) :
    Edits F (NotificationController.handleFollowTapped i c) := by
  refine edits_notification_viewModel fun n => ?_
  split
  · exact edits_andThen (edits_loader hhud)
      (under_unfollow (fun _ => ⟨sends_frame _, sends_frame _⟩) (edits_onTap h hhud))
  · exact edits_andThen (edits_loader hhud)
      (under_follow (fun _ => ⟨sends_frame _, sends_frame _⟩) (edits_onTap h hhud))

theorem edits_handlePostTapped (h : F .feeds) (hhud : F .hud) :
    Edits F (NotificationController.handlePostTapped i c) := by
  refine edits_notification_viewModel fun n => ?_
  cases n.postId with
  | none => trivial
  | some p =>
      refine edits_andThen (edits_loader hhud) (under_fetchPost plain_frame fun _ _ _ => ?_)
      exact edits_andThen (edits_loader hhud) (edits_push h)

/-! ## The other screens -/

theorem edits_search_viewDidLoad (h : F .searches) : Edits F (SearchController.viewDidLoad i) :=
  edits_andThen (under_fetchUsers plain_frame fun _ => ⟨only_searches h, trivial⟩)
    (under_fetchPosts plain_frame fun _ _ _ => ⟨only_searches h, trivial⟩)

theorem edits_search_selectUser (h : F .profiles) :
    Edits F (SearchController.didSelectRowAt i row) := by
  refine under_search_get fun search => ?_
  cases search.users[row]? with
  | none => trivial
  | some user => exact edits_showProfile h

theorem edits_search_selectPost (h : F .feeds) :
    Edits F (SearchController.didSelectItemAt i row) := by
  refine under_search_get fun search => ?_
  cases search.posts[row]? with
  | none => trivial
  | some post => exact edits_push h

theorem edits_onComment (h : F .hud) {post : Post} {user : User} (e : Option FIRError) :
    Edits F (CommentController.onComment post user e) :=
  edits_andThen (edits_loader h) edits_uploadNotification

theorem edits_inputView (h : F .hud) {comment : String} :
    Edits F (CommentController.inputView i comment) := by
  refine Code.Under.get fun app _ => ?_
  cases app.comments[i]? with
  | none => trivial
  | some screen =>
      refine under_tabUser fun _ user _ _ => edits_andThen (edits_loader h) ?_
      exact under_uploadComment plain_frame (fun _ => sends_frame _) (edits_onComment h)

theorem edits_onUpload (h : F .hud) (hfeeds : F .feeds) (e : Option FIRError) :
    Edits F (UploadPostController.onUpload e) := by
  refine edits_andThen (edits_loader h) ?_
  cases e with
  | some _ => trivial
  | none =>
      intro app _
      cases ht : app.tabFeed with
      | none => simp only [ht]; trivial
      | some feed => simp only [ht]; exact edits_handleRefresh hfeeds

theorem edits_didTapDone (h : F .hud) (hfeeds : F .feeds) {caption : String} :
    Edits F (UploadPostController.didTapDone i caption) := by
  refine Code.Under.get fun app _ => ?_
  split
  · refine edits_andThen (edits_loader h) ?_
    exact under_uploadPost plain_frame (fun _ _ _ _ _ _ => sends_frame _)
      (fun _ _ => sends_frame _) (edits_onUpload h hfeeds)
  · trivial

/-! ## Accounts -/

/-- The parts a new user of the tabs changes. -/
inductive Part.Tab : Part → Prop
  | user : Tab .user
  | feeds : Tab .feeds
  | profiles : Tab .profiles
  | notifications : Tab .notifications
  | searches : Tab .searches
  | tabFeed : Tab .tabFeed

theorem edits_tab_fetchUser (h : ∀ p, Part.Tab p → F p) : Edits F MainTabController.fetchUser := by
  refine under_fetchUser plain_frame fun _ _ data _ _ _ => ⟨fun app p hp => ?_, trivial⟩
  have hp' := mt (h p) hp
  cases p <;> first | rfl | exact absurd (by constructor) hp'

theorem edits_handleLogin (h : ∀ p, Part.Tab p → F p) (hhud : F .hud) (hu : F .currentUser)
    {email password : String} : Edits F (LoginController.handleLogin email password) := by
  refine edits_andThen (edits_loader hhud)
    (under_signIn plain_frame (fun _ _ => only_currentUser hu) fun r _ => ?_)
  cases r with
  | error e => exact edits_loader hhud
  | ok uid => exact edits_andThen (edits_loader hhud) (edits_tab_fetchUser h)

theorem edits_handleSignUp (h : ∀ p, Part.Tab p → F p) (hhud : F .hud) (hu : F .currentUser)
    {email password fullname username : String} {image : UIImage} :
    Edits F (RegisterationController.handleSignUp email password fullname username image) := by
  refine edits_andThen (edits_loader hhud)
    (under_registerUser plain_frame (fun _ _ => only_currentUser hu) (fun _ _ => sends_frame _)
      fun e => ?_)
  cases e with
  | some _ => exact edits_loader hhud
  | none => exact edits_andThen (edits_loader hhud) (edits_tab_fetchUser h)

theorem edits_handleResetPassword (h : F .hud) {email : String} :
    Edits F (ResetPasswordController.handleResetPassword email) := by
  refine edits_andThen (edits_loader h)
    (under_ask plain_frame (fun (e : Option FIRError) _ => ?_) trivial)
  cases e with
  | some _ => exact edits_loader h
  | none => trivial

theorem edits_editProfile (h : F .hud) {username fullname : String} {image : UIImage} :
    Edits F (ResetInfomation.handleSignUp username fullname image) :=
  edits_andThen (edits_loader h) (edits_andThen
    (under_upDateUser plain_frame fun _ _ => sends_frame _) (edits_loader h))

theorem edits_deleteAccount (h : F .hud) (hu : F .currentUser) :
    Edits F EditProfileContrller.yesAction := by
  refine edits_andThen (edits_loader h) (edits_andThen ?_ (edits_loader h))
  exact under_deletaUser plain_frame (fun _ => only_currentUser hu) fun _ _ => sends_frame _

/-! ## Every action -/

/-- The parts of the memory an action changes. -/
def Action.edits : Action → Part → Prop
  | tabDidLoad, p => Part.Tab p
  | didFinishPicking _, p => p = .uploads
  | feedDidLoad _, p | feedWillAppear _, p | feedRefresh _, p | feedCell .., p | tapLike .., p
  | profileSelect .., p | searchSelectPost .., p => p = .feeds
  | tapComment .., p => p = .comments
  | tapUser .., p | profileDidLoad _, p | profileWillAppear _, p | profileHeader _, p
  | tapActionButton _, p | searchSelectUser .., p => p = .profiles
  | tapRemove .., p => p = .alerts ∨ p = .feeds
  | answerAlert .., p => p = .alerts ∨ p = .hud
  | logout, p => p = .currentUser
  | notificationDidLoad _, p | notificationRefresh _, p | notificationCell .., p =>
      p = .notifications
  | tapFollow .., p => p = .notifications ∨ p = .hud
  | tapPost .., p | tapDone .., p => p = .feeds ∨ p = .hud
  | notificationSelect .., p => p = .profiles ∨ p = .hud
  | searchDidLoad _, p => p = .searches
  | sendComment .., p | resetPassword _, p | editProfile .., p => p = .hud
  | login .., p | signUp .., p => Part.Tab p ∨ p = .hud ∨ p = .currentUser
  | deleteAccount, p => p = .currentUser ∨ p = .hud

theorem edits_action {a : Action} (h : ∀ p, a.edits p → F p) : Edits F a.block := by
  cases a with
  | tabDidLoad => exact edits_tab_fetchUser h
  | didFinishPicking image => exact ⟨only_uploads (h _ rfl), trivial⟩
  | feedDidLoad i => exact edits_feed_viewDidLoad (h _ rfl)
  | feedWillAppear i => exact edits_feed_fetchPosts (h _ rfl)
  | feedRefresh i => exact edits_handleRefresh (h _ rfl)
  | feedCell i row c => exact ⟨only_feeds (h _ rfl), trivial⟩
  | tapLike i c => exact edits_didTapLike (h _ rfl)
  | tapComment i c => exact under_viewModel fun _ => ⟨only_comments (h _ rfl), trivial⟩
  | tapUser i c =>
      exact under_viewModel fun _ => under_fetchUserWithUid plain_frame fun _ _ =>
        edits_showProfile (h _ rfl)
  | tapRemove i c =>
      exact under_viewModel fun _ => under_tabUser fun _ _ _ _ =>
        ⟨only_alerts (h _ (.inl rfl)), only_feeds (h _ (.inr rfl)), trivial⟩
  | answerAlert k yes => exact edits_answerAlert (h _ (.inl rfl)) (h _ (.inr rfl))
  | logout => exact ⟨only_currentUser (h _ rfl), trivial⟩
  | profileDidLoad i =>
      exact edits_andThen (edits_profile_check (h _ rfl))
        (edits_andThen (edits_fetchUserStats (h _ rfl)) (edits_profile_fetchPost (h _ rfl)))
  | profileWillAppear i =>
      exact edits_andThen (edits_profile_fetchPost (h _ rfl)) (edits_fetchUserStats (h _ rfl))
  | profileHeader i => exact ⟨only_profiles (h _ rfl), trivial⟩
  | tapActionButton i => exact edits_tapActionButton (h _ rfl)
  | profileSelect i row => exact edits_profile_select (h _ rfl)
  | notificationDidLoad i => exact edits_fetchNotifications (h _ rfl)
  | notificationRefresh i => exact edits_notification_handleRefresh (h _ rfl)
  | notificationCell i row c => exact ⟨only_notifications (h _ rfl), trivial⟩
  | tapFollow i c => exact edits_handleFollowTapped (h _ (.inl rfl)) (h _ (.inr rfl))
  | tapPost i c => exact edits_handlePostTapped (h _ (.inl rfl)) (h _ (.inr rfl))
  | notificationSelect i row => exact edits_notificationSelect (h _ (.inl rfl)) (h _ (.inr rfl))
  | searchDidLoad i => exact edits_search_viewDidLoad (h _ rfl)
  | searchSelectUser i row => exact edits_search_selectUser (h _ rfl)
  | searchSelectPost i row => exact edits_search_selectPost (h _ rfl)
  | sendComment i comment => exact edits_inputView (h _ rfl)
  | tapDone i caption => exact edits_didTapDone (h _ (.inr rfl)) (h _ (.inl rfl))
  | login email password =>
      exact edits_handleLogin (fun p hp => h p (.inl hp)) (h _ (.inr (.inl rfl)))
        (h _ (.inr (.inr rfl)))
  | signUp email password fullname username image =>
      exact edits_handleSignUp (fun p hp => h p (.inl hp)) (h _ (.inr (.inl rfl)))
        (h _ (.inr (.inr rfl)))
  | resetPassword email => exact edits_handleResetPassword (h _ rfl)
  | editProfile username fullname image => exact edits_editProfile (h _ rfl)
  | deleteAccount => exact edits_deleteAccount (h _ (.inr rfl)) (h _ (.inl rfl))

end DogVillage
