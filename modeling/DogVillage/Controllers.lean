import DogVillage.Services

/-!
# The screens

The controllers' methods as blocks of the main thread. A controller is
named by its index in `App`; a cell by its controller and a number, and
cells are reused: what a cell shows is what it was last bound to, not the
controller's list. Pictures, labels, navigation and messages are left out;
the shared loader is kept.
-/

namespace DogVillage

open Async

/-- `UIViewController.showLoader` -/
def showLoader (show_ : Bool) : Block := .modify ({ · with hud := show_ }) .done

/-! ## FeedController -/

namespace FeedController

/-- `collectionView.reloadData()`: the cells keep what they show, but are in
no row until `cellForItemAt` is asked for one again. -/
def reloadData (feed : FeedController) : FeedController := { feed with rows := fun _ => none }

/-- `posts`, with its `didSet` -/
def setPosts (posts : List Post) (feed : FeedController) : FeedController :=
  reloadData { feed with posts := posts }

/-- Set `didLike` of the first post with the id `postId`. -/
def setDidLike (postId : DocId) (didLike : Bool) (feed : FeedController) : FeedController :=
  match feed.posts.findIdx? (·.postId == postId) with
  | some index => feed.setPosts (feed.posts.modify index ({ · with didLike := didLike }))
  | none => feed

/-- Set `didLike` of the one post. Its `didSet` reloads, and so does the
statement that follows. -/
def setPostDidLike (didLike : Bool) (feed : FeedController) : FeedController :=
  reloadData { feed with post := feed.post.map ({ · with didLike := didLike }) }

/-- Set `viewModel?.post` of a cell. -/
def setCell (c : Nat) (f : Post → Post) (feed : FeedController) : FeedController :=
  { feed with cells := Function.update feed.cells c ((feed.cells c).map f) }

def modify (i : Nat) (f : FeedController → FeedController) : Block :=
  .modify (fun app => { app with feeds := app.feeds.modify i f }) .done

def get (i : Nat) (k : FeedController → Block) : Block :=
  .get fun app =>
    match app.feeds[i]? with
    | none => .done
    | some feed => k feed

def push (feed : FeedController) : Block :=
  .modify (fun app => { app with feeds := app.feeds ++ [feed] }) .done

def checkIfUserLikedPosts (i : Nat) : Block :=
  get i fun feed =>
    match feed.post with
    | some post =>
        PostService.checkIfUserLikedPost post fun didLike =>
          .main (modify i (setPostDidLike didLike)) .done
    | none =>
        .forEach feed.posts fun post =>
          PostService.checkIfUserLikedPost post fun didLike =>
            .main (modify i (setDidLike post.postId didLike)) .done

def fetchPosts (i : Nat) : Block :=
  get i fun feed =>
    match feed.post with
    | some _ => .done
    | none =>
        PostService.fetchPosts fun posts =>
          modify i (setPosts posts) >> checkIfUserLikedPosts i

def viewDidLoad (i : Nat) : Block :=
  fetchPosts i >>
  get i fun feed => if feed.post.isSome then checkIfUserLikedPosts i else .done

def viewWillAppear (i : Nat) : Block := fetchPosts i

def handleRefresh (i : Nat) : Block :=
  modify i (setPosts []) >> fetchPosts i

def handleLogout : Block := Auth.signOut

/-- `collectionView(_:cellForItemAt:)` for cell `c` -/
def cellForItemAt (i row c : Nat) : Block :=
  modify i fun feed =>
    match feed.post.or feed.posts[row]? with
    | some post =>
        { feed with
          cells := Function.update feed.cells c (some post)
          rows := Function.update feed.rows c (some row) }
    | none => feed

/-- `guard let viewModel = viewModel else {return}` in cell `c` -/
def viewModel (i c : Nat) (k : Post → Block) : Block :=
  get i fun feed =>
    match feed.cells c with
    | none => .done
    | some post => k post

/-- `guard let user = tab.user else {return}` -/
def tabUser (k : User → Block) : Block :=
  .get fun app =>
    match app.user with
    | none => .done
    | some user => k user

/-- The completion `cell(_:didLike:)` gives to `unlikePost` -/
def onUnlike (i c : Nat) (post : Post) : Completion := fun error =>
  match error with
  | some _ => .done
  | none => modify i (setCell c ({ · with likes := post.likes - 1 }))

/-- The completion `cell(_:didLike:)` gives to `likePost` -/
def onLike (i c : Nat) (post : Post) (user : User) : Completion := fun error =>
  match error with
  | some _ => .done
  | none =>
      modify i (setCell c ({ · with likes := post.likes + 1 })) >>
      NotificationService.uploadNotification post.ownerUid user .like (some post)

/-- `cell.viewModel?.post.didLike.toggle()` -/
def toggleCell (i c : Nat) : Block :=
  modify i (setCell c fun post => { post with didLike := !post.didLike })

/-- `cell(_:didLike:)` -/
def cellDidLike (i c : Nat) (post : Post) : Block :=
  tabUser fun user =>
    toggleCell i c >>
    if post.didLike then PostService.unlikePost post (onUnlike i c post)
    else PostService.likePost post (onLike i c post user)

def didTapLike (i c : Nat) : Block := viewModel i c (cellDidLike i c)

/-- `cell(_:wantsToShowCommentsFor:)` -/
def didTapComment (i c : Nat) : Block :=
  viewModel i c fun post =>
    .modify (fun app => { app with comments := app.comments ++ [⟨post⟩] }) .done

/-- A new profile screen. -/
def showProfile (user : User) : Block :=
  .modify (fun app => { app with profiles := app.profiles ++ [{ user := user }] }) .done

/-- `cell(_:wantsToshowProfileFor:)` -/
def showUserProfile (i c : Nat) : Block :=
  viewModel i c fun post => UserService.fetchUserWithUid post.ownerUid showProfile

/-- `cell(_:removePost:)`: the alert is put on display. -/
def didTapRemove (i c : Nat) : Block :=
  viewModel i c fun post =>
    tabUser fun user =>
      .modify (fun app => { app with alerts := app.alerts ++ [(post, user)] })
        (modify i reloadData)

/-- The alert's "yes" action. The completion only shows a message. -/
def yesAction (post : Post) (user : User) : Block :=
  showLoader true >>
  PostService.removePost post.postId user.uid (fun _ => .done) >>
  showLoader false

/-- The user answers alert `k`. -/
def answerAlert (k : Nat) (yes : Bool) : Block :=
  .get fun app =>
    match app.alerts[k]? with
    | none => .done
    | some (post, user) =>
        .modify (fun app => { app with alerts := app.alerts.eraseIdx k })
          (if yes then yesAction post user else .done)

end FeedController

/-! ## ProfileController -/

namespace ProfileController

def modify (i : Nat) (f : ProfileController → ProfileController) : Block :=
  .modify (fun app => { app with profiles := app.profiles.modify i f }) .done

def get (i : Nat) (k : ProfileController → Block) : Block :=
  .get fun app =>
    match app.profiles[i]? with
    | none => .done
    | some profile => k profile

def checkIfUserIsFollowed (i : Nat) : Block :=
  get i fun profile =>
    UserService.checkIfUserIsFollowed profile.user.uid fun isFollowed =>
      modify i fun profile => { profile with user.isFollowed := isFollowed }

def fetchUserStats (i : Nat) : Block :=
  get i fun profile =>
    UserService.fetchUserState profile.user.uid fun state =>
      modify i fun profile => { profile with user.stats := state }

def fetchPost (i : Nat) : Block :=
  get i fun profile =>
    PostService.fetchPostsForUser profile.user.uid fun posts =>
      modify i fun profile => { profile with posts := posts }

def viewDidLoad (i : Nat) : Block :=
  checkIfUserIsFollowed i >> fetchUserStats i >> fetchPost i

def viewWillAppear (i : Nat) : Block := fetchPost i >> fetchUserStats i

/-- `collectionView(_:viewForSupplementaryElementOfKind:at:)` -/
def viewForSupplementaryElement (i : Nat) : Block :=
  modify i fun profile => { profile with header := some profile.user }

/-- What the completions of `didTapActionButtonFor` do to the screen. -/
def setFollowed (isFollowed : Bool) (n : Int) (profile : ProfileController) :
    ProfileController :=
  { profile with
    user.isFollowed := isFollowed
    user.stats.followers := profile.user.stats.followers + n }

/-- The completion `didTapActionButtonFor` gives to `unfollow` -/
def onUnfollow (i : Nat) (user : User) : Completion := fun _error =>
  modify i (setFollowed false (-1)) >>
  PostService.updateUserFeedAfterFollowing user false

/-- The completion `didTapActionButtonFor` gives to `follow` -/
def onFollow (i : Nat) (user currentUser : User) : Completion := fun _error =>
  modify i (setFollowed true 1) >>
  NotificationService.uploadFollowNotification user.uid currentUser .follow >>
  PostService.updateUserFeedAfterFollowing user true

/-- `header(_:didTapActionButtonFor:)`; for one's own profile it opens the
edit screen. -/
def didTapActionButton (i : Nat) (user : User) : Block :=
  FeedController.tabUser fun currentUser =>
    .get fun app =>
      if app.currentUser == some user.uid then .done
      else if user.isFollowed then UserService.unfollow user.uid (onUnfollow i user)
      else UserService.follow user.uid (onFollow i user currentUser)

def handleEditProfileFollowTapped (i : Nat) : Block :=
  get i fun profile =>
    match profile.header with
    | none => .done
    | some user => didTapActionButton i user

/-- `collectionView(_:didSelectItemAt:)` -/
def didSelectItemAt (i row : Nat) : Block :=
  get i fun profile =>
    match profile.posts[row]? with
    | none => .done
    | some post => FeedController.push { post := some post }

end ProfileController

/-! ## NotificationController -/

namespace NotificationController

/-- `tableView.reloadData()`: the cells keep what they show, but are in no
row until `cellForRowAt` is asked for one again. -/
def reloadData (n : NotificationController) : NotificationController :=
  { n with rows := fun _ => none }

/-- `notifications`, with its `didSet` -/
def setNotifications (notifications : List Notification) (n : NotificationController) :
    NotificationController :=
  reloadData { n with notifications := notifications }

/-- Set `userIsFollowed` of the first notification with this id. -/
def setIsFollowed (id : DocId) (isFollowed : Bool) (n : NotificationController) :
    NotificationController :=
  match n.notifications.findIdx? (·.id == id) with
  | some index =>
      n.setNotifications (n.notifications.modify index ({ · with userIsFollowed := isFollowed }))
  | none => n

/-- `cell.viewModel?.notification.userIsFollowed.toggle()` -/
def toggleCell (c : Nat) (n : NotificationController) : NotificationController :=
  { n with
    cells := Function.update n.cells c
      ((n.cells c).map fun x => { x with userIsFollowed := !x.userIsFollowed }) }

def modify (i : Nat) (f : NotificationController → NotificationController) : Block :=
  .modify (fun app => { app with notifications := app.notifications.modify i f }) .done

def get (i : Nat) (k : NotificationController → Block) : Block :=
  .get fun app =>
    match app.notifications[i]? with
    | none => .done
    | some n => k n

def checkIfUserIsFollowed (i : Nat) : Block :=
  get i fun n =>
    .forEach n.notifications fun notification =>
      if notification.type = .follow then
        UserService.checkIfUserIsFollowed notification.uid fun isFollowed =>
          modify i (setIsFollowed notification.id isFollowed)
      else .done

def fetchNotifications (i : Nat) : Block :=
  NotificationService.fetchNotification fun notifications =>
    modify i (setNotifications notifications) >> checkIfUserIsFollowed i

def viewDidLoad (i : Nat) : Block := fetchNotifications i

def handleRefresh (i : Nat) : Block :=
  .main (modify i (setNotifications []) >> fetchNotifications i) .done

/-- `tableView(_:cellForRowAt:)` for cell `c` -/
def cellForRowAt (i row c : Nat) : Block :=
  modify i fun n =>
    match n.notifications[row]? with
    | some notification =>
        { n with
          cells := Function.update n.cells c (some notification)
          rows := Function.update n.rows c (some row) }
    | none => n

/-- `tableView(_:didSelectRowAt:)` -/
def didSelectRowAt (i row : Nat) : Block :=
  get i fun n =>
    match n.notifications[row]? with
    | none => .done
    | some notification =>
        showLoader true >>
        UserService.fetchUserWithUid notification.uid fun user =>
          showLoader false >> FeedController.showProfile user

/-- `guard let viewModel = viewModel else {return}` in cell `c` -/
def viewModel (i c : Nat) (k : Notification → Block) : Block :=
  get i fun n =>
    match n.cells c with
    | none => .done
    | some notification => k notification

/-- The completion both taps on a follow button give to their service call -/
def onTap (i c : Nat) : Completion := fun _ => showLoader false >> modify i (toggleCell c)

/-- `cell(_:wantsToFollow:)` -/
def wantsToFollow (i c : Nat) (uid : Uid) : Block :=
  showLoader true >> UserService.follow uid (onTap i c)

/-- `cell(_:wantsToUnfollow:)` -/
def wantsToUnfollow (i c : Nat) (uid : Uid) : Block :=
  showLoader true >> UserService.unfollow uid (onTap i c)

def handleFollowTapped (i c : Nat) : Block :=
  viewModel i c fun notification =>
    if notification.userIsFollowed then wantsToUnfollow i c notification.uid
    else wantsToFollow i c notification.uid

/-- `cell(_:wantsToViewPost:)` -/
def wantsToViewPost (postId : DocId) : Block :=
  showLoader true >>
  PostService.fetchPost postId fun post =>
    showLoader false >> FeedController.push { post := some post }

def handlePostTapped (i c : Nat) : Block :=
  viewModel i c fun notification =>
    match notification.postId with
    | none => .done
    | some postId => wantsToViewPost postId

end NotificationController

/-! ## SearchController -/

namespace SearchController

def modify (i : Nat) (f : SearchController → SearchController) : Block :=
  .modify (fun app => { app with searches := app.searches.modify i f }) .done

def get (i : Nat) (k : SearchController → Block) : Block :=
  .get fun app =>
    match app.searches[i]? with
    | none => .done
    | some search => k search

def fetchUsers (i : Nat) : Block :=
  UserService.fetchUsers fun users => modify i ({ · with users := users })

def fetchPosts (i : Nat) : Block :=
  PostService.fetchPosts fun posts => modify i ({ · with posts := posts })

def viewDidLoad (i : Nat) : Block := fetchUsers i >> fetchPosts i

/-- `tableView(_:didSelectRowAt:)` -/
def didSelectRowAt (i row : Nat) : Block :=
  get i fun search =>
    match search.users[row]? with
    | none => .done
    | some user => FeedController.showProfile user

/-- `collectionView(_:didSelectItemAt:)` -/
def didSelectItemAt (i row : Nat) : Block :=
  get i fun search =>
    match search.posts[row]? with
    | none => .done
    | some post => FeedController.push { post := some post }

end SearchController

/-! ## CommentController -/

namespace CommentController

/-- The completion `inputView` gives to `uploadComment` -/
def onComment (post : Post) (currentUser : User) : Completion := fun _error =>
  showLoader false >>
  NotificationService.uploadNotification post.ownerUid currentUser .comment (some post)

/-- `inputView(_:wantsToUploadComment:)` -/
def inputView (i : Nat) (comment : String) : Block :=
  .get fun app =>
    match app.comments[i]? with
    | none => .done
    | some ⟨post⟩ =>
        FeedController.tabUser fun currentUser =>
          showLoader true >>
          CommentService.uploadComment comment post.postId currentUser
            (onComment post currentUser)

end CommentController

/-! ## MainTabController -/

namespace MainTabController

/-- `configureViewController(withUser:)`: the screens of the tabs. -/
def configureViewController (user : User) (app : App) : App :=
  { app with
    feeds := app.feeds ++ [{}]
    searches := app.searches ++ [{}]
    notifications := app.notifications ++ [{}]
    profiles := app.profiles ++ [{ user := user }]
    tabFeed := some app.feeds.length }

/-- `var user`, with its `didSet` -/
def setUser (user : User) : Block :=
  .modify (fun app => configureViewController user { app with user := some user }) .done

def fetchUser : Block := UserService.fetchUser setUser

def viewDidLoad : Block := fetchUser

def authenticationComplete : Block := fetchUser

/-- The completion of `picker.didFinishPicking` -/
def didFinishPicking (selectedImage : UIImage) : Block :=
  .modify (fun app =>
    { app with uploads := app.uploads ++ [⟨some selectedImage, app.user⟩] }) .done

def controllerDidFinishUploadingPost : Block :=
  .get fun app =>
    match app.tabFeed with
    | none => .done
    | some feed => FeedController.handleRefresh feed

end MainTabController

/-! ## UploadPostController -/

namespace UploadPostController

/-- The completion `didTapDone` gives to `uploadPost` -/
def onUpload : Completion := fun error =>
  showLoader false >>
  match error with
  | some _ => .done
  | none => MainTabController.controllerDidFinishUploadingPost

/-- `didTapDone()`, with the text of the caption field -/
def didTapDone (i : Nat) (caption : String) : Block :=
  .get fun app =>
    match app.uploads[i]? with
    | some ⟨some image, some user⟩ =>
        showLoader true >> PostService.uploadPost caption image user onUpload
    | _ => .done

end UploadPostController

/-! ## Authentication -/

def LoginController.handleLogin (email password : String) : Block :=
  showLoader true >>
  AuthService.logUserIn email password fun result =>
    match result with
    | .error _ => showLoader false
    | .ok _ => showLoader false >> MainTabController.authenticationComplete

namespace RegisterationController

/-- The completion `handleSignUp` gives to `registerUser` -/
def onRegister : Completion := fun error =>
  match error with
  | some _ => showLoader false
  | none => showLoader true >> MainTabController.authenticationComplete

/-- `handleSignUp()`, with the texts of its fields; `username` is lowercased. -/
def handleSignUp (email password fullname username : String) (profileImage : UIImage) : Block :=
  let credentials : AuthCredentials :=
    { email, password, fullname, username := username.toLower, profileImage }
  showLoader true >> AuthService.registerUser credentials onRegister

end RegisterationController

def ResetPasswordController.handleResetPassword (email : String) : Block :=
  showLoader true >>
  AuthService.resetPassword email fun error =>
    match error with
    | some _ => showLoader false
    | none => .done

def ResetInfomation.handleSignUp (username fullname : String) (profileImage : UIImage) : Block :=
  showLoader true >>
  AuthService.upDateUser username fullname profileImage (fun error =>
    match error with
    | some _ => showLoader false
    | none => .done) >>
  showLoader false

/-- The "yes" action of `EditProfileContrller`. -/
def EditProfileContrller.yesAction : Block :=
  showLoader true >> AuthService.deletaUser >> showLoader false

end DogVillage
