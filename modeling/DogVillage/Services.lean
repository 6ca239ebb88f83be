import DogVillage.Backend

/-!
# The services

`API/*.swift` and `Controller/UserService.swift`, function by function. A
completion handler of the source is an argument of the function here; a
`guard … else {return}` that fails gives `.done`.
-/

namespace DogVillage

open Async

abbrev Completion := Option FIRError → Block

/-! ## Auth

A successful call to `Auth.auth()` changes `currentUser` before its
handler runs. -/

/-- `guard let uid = Auth.auth().currentUser?.uid else {return}` -/
def currentUid (k : Uid → Block) : Block :=
  .get fun app =>
    match app.currentUser with
    | none => .done
    | some uid => k uid

namespace Auth

def createUser (email password : String) (completion : Except FIRError Uid → Block) :
    Block :=
  .ask (.createUser email password) (fun result =>
    match result with
    | .ok uid => .modify ({ · with currentUser := some uid }) (completion (.ok uid))
    | .error e => completion (.error e)) .done

def signIn (email password : String) (completion : Except FIRError Uid → Block) : Block :=
  .ask (.signIn email password) (fun result =>
    match result with
    | .ok uid => .modify ({ · with currentUser := some uid }) (completion (.ok uid))
    | .error e => completion (.error e)) .done

def sendPasswordReset (email : String) (completion : Completion) : Block :=
  .ask (.sendPasswordReset email) completion .done

/-- Forget `uid` if it is the account signed in. -/
def forget (uid : Uid) (app : App) : App :=
  { app with currentUser := app.currentUser.filter (· != uid) }

/-- `Auth.auth().currentUser?.delete(completion:)` -/
def delete (completion : Completion) : Block :=
  currentUid fun uid =>
    .ask (.deleteAccount uid) (fun error =>
      match error with
      | none => .modify (forget uid) (completion none)
      | some e => completion (some e)) .done

def signOut : Block := .modify ({ · with currentUser := none }) .done

end Auth

/-! ## ImageUploader -/

namespace ImageUploader

def uploadImage (image : UIImage) (completion : String → Block) : Block :=
  match image.jpegData with
  | none => .done
  | some imageData =>
      .env fun e =>
        let path := "/profile_image/" ++ e.uuid
        .ask (.putData path imageData) (fun error =>
          match error with
          | some _ => .done
          | none =>
              .ask (.downloadURL path) (fun url =>
                match url with
                | none => .done
                | some imageUrl => completion imageUrl) .done) .done

end ImageUploader

/-! ## AuthService -/

structure AuthCredentials where
  email : String
  password : String
  fullname : String
  username : String
  profileImage : UIImage
deriving DecidableEq, Repr

namespace AuthService

/-- The document `users/uid` of a new account. -/
def userData (credentials : AuthCredentials) (imageUrl : String) (uid : Uid) : Dictionary :=
  [("email", .string credentials.email),
   ("fullname", .string credentials.fullname),
   ("profileImageUrl", .string imageUrl),
   ("uid", .string uid),
   ("username", .string credentials.username)]

def registerUser (credentials : AuthCredentials) (completion : Completion) : Block :=
  .global
    (ImageUploader.uploadImage credentials.profileImage fun imageUrl =>
      Auth.createUser credentials.email credentials.password fun result =>
        match result with
        | .error error => completion (some error)
        | .ok uid =>
            .main (.write (.setData ⟨.users, uid⟩ (userData credentials imageUrl uid))
              completion .done) .done) .done

def logUserIn (email password : String) (completion : Except FIRError Uid → Block) : Block :=
  Auth.signIn email password completion

def resetPassword (email : String) (completion : Completion) : Block :=
  Auth.sendPasswordReset email completion

/-- The completion is handed over and never called. -/
def upDateUser (username fullname : String) (image : UIImage) (_completion : Completion) :
    Block :=
  currentUid fun uid =>
    ImageUploader.uploadImage image fun imageUrl =>
      .write (.updateData ⟨.users, uid⟩
        [("fullname", .string fullname),
         ("profileImageUrl", .string imageUrl),
         ("username", .string username)]) (fun _ => .done) .done

def deletaUser : Block :=
  currentUid fun uid =>
    .global
      (Auth.delete (fun _ => .done) >>
       .write (.delete ⟨.users, uid⟩) (fun error =>
         match error with
         | some _ => .done
         | none =>
             .listen (.getDocuments
                 { collection := .posts, whereField := some ("ownerUid", .string uid) })
               (fun snapshot =>
                 match snapshot with
                 | none => .done
                 | some documents =>
                     .forEach documents fun document =>
                       .write (.delete ⟨.posts, document.1⟩) (fun _ => .done) .done) .done)
         .done) .done

end AuthService

/-! ## UserService -/

namespace UserService

/-- Fetch `users/uid`; a missing document is dropped silently. -/
def fetchUserWithUid (uid : Uid) (completion : User → Block) : Block :=
  .global
    (.ask (.getDocument ⟨.users, uid⟩) (fun snapshot =>
      match snapshot.join with
      | none => .done
      | some dictionary => .main (completion (User.init dictionary)) .done) .done) .done

def fetchUser (completion : User → Block) : Block :=
  currentUid fun uid => fetchUserWithUid uid completion

def fetchUsers (completion : List User → Block) : Block :=
  .global
    (.ask (.getDocuments { collection := .users }) (fun snapshot =>
      match snapshot with
      | none => .done
      | some documents =>
          .main (completion (documents.map fun document => User.init document.2)) .done)
      .done) .done

def follow (uid : Uid) (completion : Completion) : Block :=
  currentUid fun currentUid =>
    .global
      (.write (.setData ⟨.userFollowing currentUid, uid⟩ []) (fun _error =>
        .write (.setData ⟨.userFollowers uid, currentUid⟩ []) completion .done) .done) .done

def unfollow (uid : Uid) (completion : Completion) : Block :=
  currentUid fun currentUid =>
    .global
      (.write (.delete ⟨.userFollowing currentUid, uid⟩) (fun _error =>
        .write (.delete ⟨.userFollowers uid, currentUid⟩) completion .done) .done) .done

def checkIfUserIsFollowed (uid : Uid) (completion : Bool → Block) : Block :=
  currentUid fun currentUid =>
    .global
      (.ask (.getDocument ⟨.userFollowing currentUid, uid⟩) (fun snapshot =>
        match snapshot with
        | none => .done
        | some data => .main (completion data.isSome) .done) .done) .done

/-- `snapshot?.documents.count ?? 0` -/
def documentsCount (snapshot : Option (List (DocId × Dictionary))) : Int :=
  (snapshot.map (·.length)).getD 0

def fetchUserState (uid : Uid) (completion : UserStats → Block) : Block :=
  .global
    (.ask (.getDocuments { collection := .userFollowers uid }) (fun snapshot =>
      let followers := documentsCount snapshot
      .ask (.getDocuments { collection := .userFollowing uid }) (fun snapshot =>
        let following := documentsCount snapshot
        .ask (.getDocuments
            { collection := .posts, whereField := some ("ownerUid", .string uid) })
          (fun snapshot =>
            let posts := documentsCount snapshot
            .main (completion ⟨followers, following, posts⟩) .done) .done) .done) .done) .done

end UserService

/-! ## PostService -/

namespace PostService

/-- The document of a new post. -/
def postData (caption imageUrl : String) (uid : Uid) (user : User) (now : Timestamp) :
    Dictionary :=
  [("caption", .string caption),
   ("timestamp", .timestamp now),
   ("likes", .int 0),
   ("imageUrl", .string imageUrl),
   ("ownerUid", .string uid),
   ("ownerImageUrl", .string user.profileImageUrl),
   ("ownerUsername", .string user.username)]

def updateUserFeedAfterPost (postId : DocId) : Block :=
  currentUid fun uid =>
    .ask (.getDocuments { collection := .userFollowers uid }) (fun snapshot =>
      match snapshot with
      | none => .done
      | some documents =>
          .forEach documents (fun document =>
            .write (.setData ⟨.userFeed document.1, postId⟩ []) (fun _ => .done) .done) >>
          .write (.setData ⟨.userFeed uid, postId⟩ []) (fun _ => .done) .done) .done

def uploadPost (caption : String) (image : UIImage) (user : User) (completion : Completion) :
    Block :=
  currentUid fun uid =>
    .global
      (ImageUploader.uploadImage image fun imageUrl =>
        .env fun e =>
          .write (.setData ⟨.posts, e.uuid⟩ (postData caption imageUrl uid user e.now))
            completion (updateUserFeedAfterPost e.uuid)) .done

/-- The posts of a snapshot; `now` is the time of decoding. -/
def posts (documents : List (DocId × Dictionary)) (now : Timestamp) : List Post :=
  documents.map fun document => Post.init document.1 document.2 now

def fetchPosts (completion : List Post → Block) : Block :=
  .global
    (.ask (.getDocuments { collection := .posts, orderBy := some "timestamp" }) (fun snapshot =>
      match snapshot with
      | none => .done
      | some documents => .env fun e => .main (completion (posts documents e.now)) .done)
      .done) .done

/-- `posts.sort{ $0.timestamp.seconds > $1.timestamp.seconds }` -/
def sortBySeconds (posts : List Post) : List Post :=
  posts.insertionSort fun post1 post2 => post2.timestamp.seconds ≤ post1.timestamp.seconds

def fetchPostsForUser (uid : Uid) (completion : List Post → Block) : Block :=
  .global
    (.ask (.getDocuments
        { collection := .posts, whereField := some ("ownerUid", .string uid) }) (fun snapshot =>
      match snapshot with
      | none => .done
      | some documents =>
          .env fun e => .main (completion (sortBySeconds (posts documents e.now))) .done)
      .done) .done

def fetchPost (postId : DocId) (completion : Post → Block) : Block :=
  .global
    (.ask (.getDocument ⟨.posts, postId⟩) (fun snapshot =>
      match snapshot.join with
      | none => .done
      | some data => .env fun e => .main (completion (Post.init postId data e.now)) .done)
      .done) .done

def likePost (post : Post) (completion : Completion) : Block :=
  currentUid fun uid =>
    .global
      (.write (.updateData ⟨.posts, post.postId⟩ [("likes", .int (post.likes + 1))])
        (fun _ => .done)
        (.write (.setData ⟨.postLikes post.postId, uid⟩ []) (fun _ =>
          .write (.setData ⟨.userLikes uid, post.postId⟩ []) completion .done) .done)) .done

def unlikePost (post : Post) (completion : Completion) : Block :=
  currentUid fun uid =>
    if post.likes > 0 then
      .global
        (.write (.updateData ⟨.posts, post.postId⟩ [("likes", .int (post.likes - 1))])
          (fun _ => .done)
          (.write (.delete ⟨.postLikes post.postId, uid⟩) (fun _ =>
            .write (.delete ⟨.userLikes uid, post.postId⟩) completion .done) .done)) .done
    else .done

def checkIfUserLikedPost (post : Post) (completion : Bool → Block) : Block :=
  currentUid fun uid =>
    .global
      (.ask (.getDocument ⟨.userLikes uid, post.postId⟩) (fun snapshot =>
        match snapshot with
        | none => .done
        | some data => completion data.isSome) .done) .done

def updateUserFeedAfterFollowing (user : User) (didFollow : Bool) : Block :=
  currentUid fun uid =>
    .global
      (.ask (.getDocuments
          { collection := .posts, whereField := some ("ownerUid", .string user.uid) })
        (fun snapshot =>
          match snapshot with
          | none => .done
          | some documents =>
              .forEach documents fun document =>
                if didFollow then
                  .write (.setData ⟨.userFeed uid, document.1⟩ []) (fun _ => .done) .done
                else
                  .write (.delete ⟨.userFeed uid, document.1⟩) (fun _ => .done) .done) .done)
      .done

/-- The completion is handed over and never called. -/
def removePost (postId : DocId) (currentUser : Uid) (_completion : Completion) : Block :=
  currentUid fun uid =>
    if currentUser == uid then
      .write (.delete ⟨.posts, postId⟩) (fun _ => .done) .done
    else .done

end PostService

/-! ## CommentService -/

namespace CommentService

def commentData (comment : String) (user : User) (now : Timestamp) : Dictionary :=
  [("uid", .string user.uid),
   ("comment", .string comment),
   ("timestamp", .timestamp now),
   ("username", .string user.username),
   ("profileImageUrl", .string user.profileImageUrl)]

def uploadComment (comment : String) (postID : DocId) (user : User) (completion : Completion) :
    Block :=
  .global
    (.env fun e =>
      .write (.setData ⟨.comments postID, e.uuid⟩ (commentData comment user e.now))
        completion .done) .done

end CommentService

/-! ## NotificationService -/

namespace NotificationService

/-- The document of a notification of `author`, sent by `fromUser`. -/
def notificationData (author : Uid) (fromUser : User) (type : NotificationType) (e : Env) :
    Dictionary :=
  [("timestamp", .timestamp e.now),
   ("uid", .string author),
   ("type", .int type.rawValue),
   ("id", .string e.uuid),
   ("userProfileImageUrl", .string fromUser.profileImageUrl),
   ("username", .string fromUser.username)]

/-- The overload with a post: its author is the account signed in now. -/
def uploadNotification (uid : Uid) (fromUser : User) (type : NotificationType)
    (post : Option Post) : Block :=
  currentUid fun currentUid =>
    if uid != currentUid then
      .global
        (.env fun e =>
          let data := notificationData currentUid fromUser type e
          let data :=
            match post with
            | some post => data ++ [("postId", .string post.postId),
                ("postImageUrl", .string post.imageUrl)]
            | none => data
          .write (.setData ⟨.userNotifications uid, e.uuid⟩ data) (fun _ => .done) .done) .done
    else .done

/-- The overload without a post: its author is `fromUser`. -/
def uploadFollowNotification (uid : Uid) (fromUser : User) (type : NotificationType) : Block :=
  currentUid fun currentUid =>
    if uid != currentUid then
      .global
        (.env fun e =>
          .write (.setData ⟨.userNotifications uid, e.uuid⟩
            (notificationData fromUser.uid fromUser type e)) (fun _ => .done) .done) .done
    else .done

def fetchNotification (completion : List Notification → Block) : Block :=
  currentUid fun uid =>
    .global
      (.ask (.getDocuments { collection := .userNotifications uid, orderBy := some "timestamp" })
        (fun snapshot =>
          match snapshot with
          | none => .done
          | some documents =>
              .env fun e =>
                .main (completion
                  (documents.map fun document => Notification.init document.2 e.now)) .done)
        .done) .done

end NotificationService

end DogVillage
