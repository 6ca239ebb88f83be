import DogVillage.Taps

/-!
# Which collections an action writes

The footprint of every service and every user action, whatever its calls
answer and whoever is signed in when they do.
-/

namespace DogVillage

open Async

/-- The code only writes to collections in `C`. -/
abbrev Touches (C : Collection → Prop) (b : Block) : Prop :=
  b.Writes fun w : Write => C w.ref.collection

variable {C : Collection → Prop} {i c : Nat}

theorem Touches.andThen {b b' : Block} (h : Touches C b) (h' : Touches C b') :
    Touches C (b >> b') := Code.Writes.andThen h' h

theorem touches_get {k : App → Block} (h : ∀ app, Touches C (k app)) : Touches C (.get k) := h

theorem touches_currentUid {k : Uid → Block} (h : ∀ uid, Touches C (k uid)) :
    Touches C (currentUid k) := touches_get fun app => by
  cases app.currentUser with
  | none => trivial
  | some uid => exact h uid

theorem touches_feed_get {k : FeedController → Block} (h : ∀ feed, Touches C (k feed)) :
    Touches C (FeedController.get i k) := touches_get fun app => by
  cases app.feeds[i]? with
  | none => trivial
  | some feed => exact h feed

theorem touches_viewModel {k : Post → Block} (h : ∀ post, Touches C (k post)) :
    Touches C (FeedController.viewModel i c k) := touches_feed_get fun feed => by
  cases feed.cells c with
  | none => trivial
  | some post => exact h post

theorem touches_tabUser {k : User → Block} (h : ∀ user, Touches C (k user)) :
    Touches C (FeedController.tabUser k) := touches_get fun app => by
  cases app.user with
  | none => trivial
  | some user => exact h user

theorem touches_profile_get {k : ProfileController → Block}
    (h : ∀ profile, Touches C (k profile)) : Touches C (ProfileController.get i k) :=
  touches_get fun app => by
    cases app.profiles[i]? with
    | none => trivial
    | some profile => exact h profile

theorem touches_notification_get {k : NotificationController → Block}
    (h : ∀ n, Touches C (k n)) : Touches C (NotificationController.get i k) :=
  touches_get fun app => by
    cases app.notifications[i]? with
    | none => trivial
    | some n => exact h n

theorem touches_notification_viewModel {k : Notification → Block} (h : ∀ n, Touches C (k n)) :
    Touches C (NotificationController.viewModel i c k) := touches_notification_get fun screen => by
  cases screen.cells c with
  | none => trivial
  | some n => exact h n

theorem touches_search_get {k : SearchController → Block} (h : ∀ s, Touches C (k s)) :
    Touches C (SearchController.get i k) := touches_get fun app => by
  cases app.searches[i]? with
  | none => trivial
  | some search => exact h search

/-! ## Services -/

theorem touches_createUser {email password : String} {completion : Except FIRError Uid → Block}
    (h : ∀ r, Touches C (completion r)) :
    Touches C (Auth.createUser email password completion) :=
  ⟨fun (r : Except FIRError Uid) => by cases r <;> exact h _, trivial⟩

theorem touches_signIn {email password : String} {completion : Except FIRError Uid → Block}
    (h : ∀ r, Touches C (completion r)) : Touches C (Auth.signIn email password completion) :=
  ⟨fun (r : Except FIRError Uid) => by cases r <;> exact h _, trivial⟩

theorem touches_uploadImage {image : UIImage} {completion : String → Block}
    (h : ∀ url, Touches C (completion url)) :
    Touches C (ImageUploader.uploadImage image completion) := by
  rw [ImageUploader.uploadImage]
  split
  · trivial
  · refine fun e => ⟨fun (error : Option FIRError) => ?_, trivial⟩
    cases error with
    | some _ => trivial
    | none =>
        refine ⟨fun (url : Option String) => ?_, trivial⟩
        cases url with
        | none => trivial
        | some imageUrl => exact h imageUrl

theorem touches_fetchUserWithUid {uid : Uid} {completion : User → Block}
    (h : ∀ user, Touches C (completion user)) :
    Touches C (UserService.fetchUserWithUid uid completion) := by
  refine ⟨⟨fun (snapshot : Option (Option Dictionary)) => ?_, trivial⟩, trivial⟩
  rcases snapshot with _ | _ | data
  · trivial
  · trivial
  · exact ⟨h _, trivial⟩

theorem touches_fetchUsers {completion : List User → Block}
    (h : ∀ users, Touches C (completion users)) :
    Touches C (UserService.fetchUsers completion) := by
  refine ⟨⟨fun (snapshot : Option (List (DocId × Dictionary))) => ?_, trivial⟩, trivial⟩
  cases snapshot with
  | none => trivial
  | some documents => exact ⟨h _, trivial⟩

theorem touches_followWrites {currentUid uid : Uid} {completion : Completion}
    (hfollowing : C (.userFollowing currentUid)) (hfollowers : C (.userFollowers uid))
    (h : ∀ error, Touches C (completion error)) :
    Touches C (followWrites currentUid uid completion) :=
  ⟨⟨hfollowing, fun _ => ⟨hfollowers, h, trivial⟩, trivial⟩, trivial⟩

theorem touches_unfollowWrites {currentUid uid : Uid} {completion : Completion}
    (hfollowing : C (.userFollowing currentUid)) (hfollowers : C (.userFollowers uid))
    (h : ∀ error, Touches C (completion error)) :
    Touches C (unfollowWrites currentUid uid completion) :=
  ⟨⟨hfollowing, fun _ => ⟨hfollowers, h, trivial⟩, trivial⟩, trivial⟩

theorem touches_checkIfUserIsFollowed {uid : Uid} {completion : Bool → Block}
    (h : ∀ b, Touches C (completion b)) :
    Touches C (UserService.checkIfUserIsFollowed uid completion) := by
  refine touches_currentUid fun _ => ⟨⟨fun (snapshot : Option (Option Dictionary)) => ?_,
    trivial⟩, trivial⟩
  cases snapshot with
  | none => trivial
  | some data => exact ⟨h _, trivial⟩

theorem touches_fetchUserState {uid : Uid} {completion : UserStats → Block}
    (h : ∀ s, Touches C (completion s)) :
    Touches C (UserService.fetchUserState uid completion) :=
  ⟨⟨fun _ => ⟨fun _ => ⟨fun _ => ⟨h _, trivial⟩, trivial⟩, trivial⟩, trivial⟩, trivial⟩

theorem touches_updateUserFeedAfterPost {p : DocId} (hfeed : ∀ u, C (.userFeed u)) :
    Touches C (PostService.updateUserFeedAfterPost p) := by
  refine touches_currentUid fun uid => ⟨fun (snapshot : Option (List (DocId × Dictionary))) => ?_,
    trivial⟩
  cases snapshot with
  | none => trivial
  | some documents =>
      exact Touches.andThen (Code.Writes.forEach fun _ _ => ⟨hfeed _, fun _ => trivial, trivial⟩)
        ⟨hfeed _, fun _ => trivial, trivial⟩

theorem touches_uploadWrites {caption : String} {image : UIImage} {user : User} {uid : Uid}
    {completion : Completion} (hposts : C .posts) (hfeed : ∀ u, C (.userFeed u))
    (h : ∀ error, Touches C (completion error)) :
    Touches C (uploadWrites caption image user uid completion) :=
  ⟨touches_uploadImage fun _ _ => ⟨hposts, h, touches_updateUserFeedAfterPost hfeed⟩, trivial⟩

theorem touches_fetchPosts {completion : List Post → Block}
    (h : ∀ posts, Touches C (completion posts)) :
    Touches C (PostService.fetchPosts completion) := by
  refine ⟨⟨fun (snapshot : Option (List (DocId × Dictionary))) => ?_, trivial⟩, trivial⟩
  cases snapshot with
  | none => trivial
  | some documents => exact fun _ => ⟨h _, trivial⟩

theorem touches_fetchPostsForUser {uid : Uid} {completion : List Post → Block}
    (h : ∀ posts, Touches C (completion posts)) :
    Touches C (PostService.fetchPostsForUser uid completion) := by
  refine ⟨⟨fun (snapshot : Option (List (DocId × Dictionary))) => ?_, trivial⟩, trivial⟩
  cases snapshot with
  | none => trivial
  | some documents => exact fun _ => ⟨h _, trivial⟩

theorem touches_fetchPost {p : DocId} {completion : Post → Block}
    (h : ∀ post, Touches C (completion post)) :
    Touches C (PostService.fetchPost p completion) := by
  refine ⟨⟨fun (snapshot : Option (Option Dictionary)) => ?_, trivial⟩, trivial⟩
  rcases snapshot with _ | _ | data
  · trivial
  · trivial
  · exact fun _ => ⟨h _, trivial⟩

theorem touches_likeWrites {post : Post} {uid : Uid} {completion : Completion}
    (hposts : C .posts) (hpostLikes : C (.postLikes post.postId))
    (huserLikes : C (.userLikes uid)) (h : ∀ error, Touches C (completion error)) :
    Touches C (likeWrites post uid completion) :=
  ⟨⟨hposts, fun _ => trivial, hpostLikes, fun _ => ⟨huserLikes, h, trivial⟩, trivial⟩, trivial⟩

theorem touches_unlikeWrites {post : Post} {uid : Uid} {completion : Completion}
    (hposts : C .posts) (hpostLikes : C (.postLikes post.postId))
    (huserLikes : C (.userLikes uid)) (h : ∀ error, Touches C (completion error)) :
    Touches C (unlikeWrites post uid completion) :=
  ⟨⟨hposts, fun _ => trivial, hpostLikes, fun _ => ⟨huserLikes, h, trivial⟩, trivial⟩, trivial⟩

theorem touches_checkIfUserLikedPost {post : Post} {completion : Bool → Block}
    (h : ∀ b, Touches C (completion b)) :
    Touches C (PostService.checkIfUserLikedPost post completion) := by
  refine touches_currentUid fun _ => ⟨⟨fun (snapshot : Option (Option Dictionary)) => ?_,
    trivial⟩, trivial⟩
  cases snapshot with
  | none => trivial
  | some data => exact h _

theorem touches_updateUserFeedAfterFollowing {user : User} {didFollow : Bool}
    (hfeed : ∀ u, C (.userFeed u)) :
    Touches C (PostService.updateUserFeedAfterFollowing user didFollow) := by
  refine touches_currentUid fun uid => ⟨⟨fun
    (snapshot : Option (List (DocId × Dictionary))) => ?_, trivial⟩, trivial⟩
  cases snapshot with
  | none => trivial
  | some documents =>
      refine Code.Writes.forEach fun document _ => ?_
      split
      · exact ⟨hfeed _, fun _ => trivial, trivial⟩
      · exact ⟨hfeed _, fun _ => trivial, trivial⟩

theorem touches_uploadNotification {uid : Uid} {fromUser : User} {type : NotificationType}
    {post : Option Post} (h : C (.userNotifications uid)) :
    Touches C (NotificationService.uploadNotification uid fromUser type post) := by
  refine touches_currentUid fun _ => ?_
  split
  · exact ⟨fun _ => ⟨h, fun _ => trivial, trivial⟩, trivial⟩
  · trivial

theorem touches_uploadFollowNotification {uid : Uid} {fromUser : User}
    {type : NotificationType} (h : C (.userNotifications uid)) :
    Touches C (NotificationService.uploadFollowNotification uid fromUser type) := by
  refine touches_currentUid fun _ => ?_
  split
  · exact ⟨fun _ => ⟨h, fun _ => trivial, trivial⟩, trivial⟩
  · trivial

theorem touches_fetchNotification {completion : List Notification → Block}
    (h : ∀ l, Touches C (completion l)) :
    Touches C (NotificationService.fetchNotification completion) := by
  refine touches_currentUid fun _ => ⟨⟨fun
    (snapshot : Option (List (DocId × Dictionary))) => ?_, trivial⟩, trivial⟩
  cases snapshot with
  | none => trivial
  | some documents => exact fun _ => ⟨h _, trivial⟩

theorem touches_deleteWrites {uid : Uid} (husers : C .users) (hposts : C .posts) :
    Touches C (deleteWrites uid) := by
  refine Touches.andThen (touches_currentUid fun _ => ⟨fun (error : Option FIRError) => ?_,
    trivial⟩) ⟨husers, fun error => ?_, trivial⟩
  · cases error <;> trivial
  · cases error with
    | some _ => trivial
    | none =>
        refine ⟨fun (snapshot : Option (List (DocId × Dictionary))) => ?_, trivial⟩
        cases snapshot with
        | none => trivial
        | some documents =>
            exact Code.Writes.forEach fun _ _ => ⟨hposts, fun _ => trivial, trivial⟩

/-! ## Completions -/

theorem touches_onLike {post : Post} {user : User} (h : ∀ u, C (.userNotifications u))
    (error : Option FIRError) : Touches C (FeedController.onLike i c post user error) := by
  cases error with
  | some _ => trivial
  | none =>
      exact Touches.andThen (b := FeedController.modify i _) trivial
        (touches_uploadNotification (h _))

theorem touches_onUnlike {post : Post} (error : Option FIRError) :
    Touches C (FeedController.onUnlike i c post error) := by
  cases error <;> trivial

theorem touches_onFollow {user currentUser : User} (hfeed : ∀ u, C (.userFeed u))
    (h : ∀ u, C (.userNotifications u)) (error : Option FIRError) :
    Touches C (ProfileController.onFollow i user currentUser error) :=
  Touches.andThen (b := ProfileController.modify i _) trivial
    (Touches.andThen (touches_uploadFollowNotification (h _))
      (touches_updateUserFeedAfterFollowing hfeed))

theorem touches_onUnfollow {user : User} (hfeed : ∀ u, C (.userFeed u))
    (error : Option FIRError) : Touches C (ProfileController.onUnfollow i user error) :=
  Touches.andThen (b := ProfileController.modify i _) trivial
    (touches_updateUserFeedAfterFollowing hfeed)

theorem touches_onTap (error : Option FIRError) :
    Touches C (NotificationController.onTap i c error) := trivial

theorem touches_onComment {post : Post} {user : User} (h : ∀ u, C (.userNotifications u))
    (error : Option FIRError) : Touches C (CommentController.onComment post user error) :=
  Touches.andThen (b := showLoader false) trivial (touches_uploadNotification (h _))

theorem touches_checkIfUserLikedPosts : Touches C (FeedController.checkIfUserLikedPosts i) :=
  touches_feed_get fun feed => by
    cases feed.post with
    | some post => exact touches_checkIfUserLikedPost fun _ => ⟨trivial, trivial⟩
    | none =>
        exact Code.Writes.forEach fun _ _ =>
          touches_checkIfUserLikedPost fun _ => ⟨trivial, trivial⟩

theorem touches_feed_fetchPosts : Touches C (FeedController.fetchPosts i) :=
  touches_feed_get fun feed => by
    cases feed.post with
    | some _ => trivial
    | none =>
        exact touches_fetchPosts fun _ =>
          Touches.andThen (b := FeedController.modify i _) trivial touches_checkIfUserLikedPosts

theorem touches_onUpload (error : Option FIRError) :
    Touches C (UploadPostController.onUpload error) := by
  refine Touches.andThen (b := showLoader false) trivial ?_
  cases error with
  | some _ => trivial
  | none =>
      refine touches_get fun app => ?_
      cases app.tabFeed with
      | none => trivial
      | some feed =>
          exact Touches.andThen (b := FeedController.modify _ _) trivial touches_feed_fetchPosts

theorem touches_tab_fetchUser : Touches C MainTabController.fetchUser :=
  touches_currentUid fun _ => touches_fetchUserWithUid fun _ => trivial

theorem touches_registerUser {credentials : AuthCredentials} (h : C .users) :
    Touches C (AuthService.registerUser credentials RegisterationController.onRegister) := by
  refine ⟨touches_uploadImage fun url => touches_createUser fun result => ?_, trivial⟩
  cases result with
  | error _ => trivial
  | ok uid =>
      refine ⟨⟨h, fun error => ?_, trivial⟩, trivial⟩
      cases error with
      | some _ => trivial
      | none => exact Touches.andThen (b := showLoader true) trivial touches_tab_fetchUser

theorem touches_profile_checkIfUserIsFollowed :
    Touches C (ProfileController.checkIfUserIsFollowed i) :=
  touches_profile_get fun _ => touches_checkIfUserIsFollowed fun _ => trivial

theorem touches_fetchUserStats : Touches C (ProfileController.fetchUserStats i) :=
  touches_profile_get fun _ => touches_fetchUserState fun _ => trivial

theorem touches_profile_fetchPost : Touches C (ProfileController.fetchPost i) :=
  touches_profile_get fun _ => touches_fetchPostsForUser fun _ => trivial

theorem touches_fetchNotifications : Touches C (NotificationController.fetchNotifications i) := by
  refine touches_fetchNotification fun _ => Touches.andThen
    (b := NotificationController.modify i _) trivial (touches_notification_get fun screen =>
      Code.Writes.forEach fun notification _ => ?_)
  split
  · exact touches_checkIfUserIsFollowed fun _ => trivial
  · trivial

/-! ## Every action -/

/-- The collections an action may write to. -/
def Action.touches (a : Action) (c : Collection) : Prop :=
  match a, c with
  | tapLike .., .posts => True
  | tapLike .., .postLikes _ => True
  | tapLike .., .userLikes _ => True
  | tapLike .., .userNotifications _ => True
  | tapActionButton _, .userFollowing _ => True
  | tapActionButton _, .userFollowers _ => True
  | tapActionButton _, .userNotifications _ => True
  | tapActionButton _, .userFeed _ => True
  | tapFollow .., .userFollowing _ => True
  | tapFollow .., .userFollowers _ => True
  | sendComment .., .comments _ => True
  | sendComment .., .userNotifications _ => True
  | tapDone .., .posts => True
  | tapDone .., .userFeed _ => True
  | answerAlert .., .posts => True
  | signUp .., .users => True
  | editProfile .., .users => True
  | deleteAccount, .users => True
  | deleteAccount, .posts => True
  | _, _ => False

theorem touches_action (a : Action) (app : App) :
    Touches a.touches (a.block.start app) := by
  cases a with
  | tapLike i c =>
      have htap := likeTap i c app
      generalize (Action.tapLike i c).op app = op at htap
      generalize (Action.tapLike i c).block.start app = b at htap ⊢
      cases htap with
      | none => trivial
      | dropped => trivial
      | like => exact touches_likeWrites trivial trivial trivial (touches_onLike fun _ => trivial)
      | unlike => exact touches_unlikeWrites trivial trivial trivial touches_onUnlike
  | tapActionButton i =>
      have htap := profileTap i app
      generalize (Action.tapActionButton i).op app = op at htap
      generalize (Action.tapActionButton i).block.start app = b at htap ⊢
      cases htap with
      | none => trivial
      | follow =>
          exact touches_followWrites trivial trivial
            (touches_onFollow (fun _ => trivial) fun _ => trivial)
      | unfollow =>
          exact touches_unfollowWrites trivial trivial (touches_onUnfollow fun _ => trivial)
  | tapFollow i c =>
      have htap := notificationTap i c app
      generalize (Action.tapFollow i c).op app = op at htap
      generalize (Action.tapFollow i c).block.start app = b at htap ⊢
      cases htap with
      | none => trivial
      | dropped => trivial
      | follow => exact touches_followWrites trivial trivial touches_onTap
      | unfollow => exact touches_unfollowWrites trivial trivial touches_onTap
  | sendComment i comment =>
      have htap := commentTap i comment app
      generalize (Action.sendComment i comment).op app = op at htap
      generalize (Action.sendComment i comment).block.start app = b at htap ⊢
      cases htap with
      | none => trivial
      | send => exact ⟨fun _ => ⟨trivial, touches_onComment fun _ => trivial, trivial⟩, trivial⟩
  | tapDone i caption =>
      have htap := uploadTap i caption app
      generalize (Action.tapDone i caption).op app = op at htap
      generalize (Action.tapDone i caption).block.start app = b at htap ⊢
      cases htap with
      | none => trivial
      | dropped => trivial
      | upload => exact touches_uploadWrites trivial (fun _ => trivial) touches_onUpload
  | answerAlert k yes =>
      have htap := removeTap k yes app
      generalize (Action.answerAlert k yes).op app = op at htap
      generalize (Action.answerAlert k yes).block.start app = b at htap ⊢
      cases htap with
      | none => trivial
      | no => trivial
      | kept => trivial
      | removed => exact ⟨trivial, fun _ => trivial, trivial⟩
  | deleteAccount =>
      have htap := deleteTap app
      generalize Action.deleteAccount.block.start app = b at htap ⊢
      cases htap with
      | none => trivial
      | delete => exact ⟨touches_deleteWrites trivial trivial, trivial⟩
  | signUp email password fullname username image =>
      exact Code.Writes.start (Touches.andThen (b := showLoader true) trivial
        (touches_registerUser trivial))
  | editProfile username fullname image =>
      have hloader : ∀ b, Touches (Action.editProfile username fullname image).touches
          (showLoader b) := fun _ => trivial
      refine Code.Writes.start (Touches.andThen (hloader true) (Touches.andThen ?_ (hloader false)))
      exact touches_currentUid fun _ => touches_uploadImage fun _ =>
        ⟨trivial, fun _ => trivial, trivial⟩
  | tabDidLoad => exact touches_tab_fetchUser.start
  | didFinishPicking image => trivial
  | feedDidLoad i =>
      refine Code.Writes.start (Touches.andThen touches_feed_fetchPosts
        (touches_feed_get fun feed => ?_))
      split
      · exact touches_checkIfUserLikedPosts
      · trivial
  | feedWillAppear i => exact touches_feed_fetchPosts.start
  | feedRefresh i =>
      exact Code.Writes.start (Touches.andThen (b := FeedController.modify i _) trivial
        touches_feed_fetchPosts)
  | feedCell i row c => trivial
  | tapComment i c =>
      exact Code.Writes.start (touches_viewModel fun _ => trivial)
  | tapUser i c =>
      exact Code.Writes.start (touches_viewModel fun _ =>
        touches_fetchUserWithUid fun _ => trivial)
  | tapRemove i c =>
      exact Code.Writes.start (touches_viewModel fun _ => touches_tabUser fun _ => trivial)
  | logout => trivial
  | profileDidLoad i =>
      exact Code.Writes.start (Touches.andThen touches_profile_checkIfUserIsFollowed
        (Touches.andThen touches_fetchUserStats touches_profile_fetchPost))
  | profileWillAppear i =>
      exact Code.Writes.start (Touches.andThen touches_profile_fetchPost touches_fetchUserStats)
  | profileHeader i => trivial
  | profileSelect i row =>
      refine Code.Writes.start (touches_profile_get fun screen => ?_)
      split <;> trivial
  | notificationDidLoad i => exact touches_fetchNotifications.start
  | notificationRefresh i =>
      exact Code.Writes.start ⟨Touches.andThen (b := NotificationController.modify i _) trivial
        touches_fetchNotifications, trivial⟩
  | notificationCell i row c => trivial
  | tapPost i c =>
      refine Code.Writes.start (touches_notification_viewModel fun n => ?_)
      cases n.postId with
      | none => trivial
      | some p =>
          refine Touches.andThen (b := showLoader true) trivial (touches_fetchPost fun post => ?_)
          trivial
  | notificationSelect i row =>
      refine Code.Writes.start (touches_notification_get fun screen => ?_)
      split
      · trivial
      · exact Touches.andThen (b := showLoader true) trivial
          (touches_fetchUserWithUid fun _ => trivial)
  | searchDidLoad i =>
      exact Code.Writes.start (Touches.andThen (touches_fetchUsers fun _ => trivial)
        (touches_fetchPosts fun _ => trivial))
  | searchSelectUser i row =>
      refine Code.Writes.start (touches_search_get fun screen => ?_)
      split <;> trivial
  | searchSelectPost i row =>
      refine Code.Writes.start (touches_search_get fun screen => ?_)
      split <;> trivial
  | login email password =>
      refine Code.Writes.start (Touches.andThen (b := showLoader true) trivial
        (touches_signIn fun result => ?_))
      cases result with
      | error _ => trivial
      | ok _ => exact Touches.andThen (b := showLoader false) trivial touches_tab_fetchUser
  | resetPassword email =>
      refine Code.Writes.start (Touches.andThen (b := showLoader true) trivial
        ⟨fun (error : Option FIRError) => ?_, trivial⟩)
      cases error <;> trivial

end DogVillage
