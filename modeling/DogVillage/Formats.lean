import DogVillage.Calls

/-!
# Formats

A document is written by one service and read back by an
`init(dictionary:)` in another file, key by key and cast by cast. Each
stored format is a schema: its keys, each with the type of its values.
What the services write conforms to a schema, the partial updates stay
within it, and a dictionary that conforms is decoded without a default.
-/

namespace DogVillage

open Async

/-! ## Schemas -/

inductive FieldType
  | string
  | int
  | timestamp
deriving DecidableEq, Repr

def Value.kind : Value → FieldType
  | string _ => .string
  | int _ => .int
  | timestamp _ => .timestamp

structure Schema where
  fields : List (String × FieldType)
  nodup : (fields.map Prod.fst).Nodup := by decide

namespace Schema

/-- What is under each key is under a key of the schema, and of its type. -/
def Admits (schema : Schema) (look : String → Option Value) : Prop :=
  ∀ key value, look key = some value → schema.fields.lookup key = some value.kind

/-- Under each key of the schema, and no other, is a value of its type. -/
def Conforms (schema : Schema) (look : String → Option Value) : Prop :=
  ∀ key, (look key).map Value.kind = schema.fields.lookup key

variable {schema : Schema} {look look' : String → Option Value}

theorem lookup_of_mem {key : String} {kind : FieldType} : ∀ {l : List (String × FieldType)},
    (l.map Prod.fst).Nodup → (key, kind) ∈ l → l.lookup key = some kind
  | field :: l, hnodup, hmem => by
      obtain ⟨hnew, hnodup⟩ := List.nodup_cons.mp hnodup
      rcases List.mem_cons.mp hmem with rfl | hmem
      · exact List.lookup_cons_self
      · have hne : (key == field.1) = false := by
          refine beq_false_of_ne fun h => hnew ?_
          exact h ▸ List.mem_map_of_mem hmem
        rw [List.lookup_cons, hne]
        exact lookup_of_mem hnodup hmem

theorem mem_of_lookup {key : String} {value : Value} {data : Dictionary}
    (h : data.lookup key = some value) : (key, value) ∈ data := by
  obtain ⟨front, rest, rfl, -⟩ := List.lookup_eq_some_iff.mp h
  exact List.mem_append_right _ List.mem_cons_self

theorem admits_of_subset {data : Dictionary}
    (h : (data.map fun field => (field.1, field.2.kind)) ⊆ schema.fields) :
    schema.Admits (data.lookup ·) := by
  intro key value hlook
  have hmem : (key, value.kind) ∈ data.map fun field => (field.1, field.2.kind) :=
    List.mem_map.mpr ⟨(key, value), mem_of_lookup hlook, rfl⟩
  exact lookup_of_mem schema.nodup (h hmem)

theorem conforms_of_keys {data : Dictionary}
    (h : (data.map fun field => (field.1, field.2.kind)) ⊆ schema.fields)
    (hkeys : schema.fields.map Prod.fst ⊆ data.map Prod.fst) :
    schema.Conforms (data.lookup ·) := by
  intro key
  show (data.lookup key).map Value.kind = _
  cases hlook : data.lookup key with
  | some value => exact (admits_of_subset h key value hlook).symm
  | none =>
      refine (List.lookup_eq_none_iff.mpr fun field hfield => ?_).symm
      obtain ⟨written, hmem, hkey⟩ := List.mem_map.mp (hkeys (List.mem_map_of_mem hfield))
      exact hkey ▸ List.lookup_eq_none_iff.mp hlook written hmem

/-! ## Partial updates -/

theorem Conforms.or (h : schema.Conforms look) (h' : schema.Admits look') :
    schema.Conforms fun key => (look' key).or (look key) := by
  intro key
  show ((look' key).or (look key)).map Value.kind = _
  cases hlook : look' key with
  | none => rw [Option.none_or]; exact h key
  | some value => rw [Option.some_or]; exact (h' key value hlook).symm

theorem admits_lastWritten : ∀ {ws : List Write}, (∀ w ∈ ws, schema.Admits (w.data.lookup ·)) →
    schema.Admits fun key => DocWrite.lastWritten key ws
  | [], _, _, _, h => by cases h
  | w :: ws, hw, key, value, h => by
      rcases Option.or_eq_some_iff.mp h with h | ⟨-, h⟩
      · exact admits_lastWritten (fun v hv => hw v (List.mem_cons_of_mem _ hv)) key value h
      · exact hw w List.mem_cons_self key value h

theorem conforms_lastWritten {w : Write} {ws : List Write} (h : schema.Conforms (w.data.lookup ·))
    (hw : ∀ v ∈ ws, schema.Admits (v.data.lookup ·)) :
    schema.Conforms fun key => DocWrite.lastWritten key (w :: ws) :=
  h.or (admits_lastWritten hw)

/-! ## Decoding -/

/-- The value under `key` as `init(dictionary:)` reads it. -/
def read (data : Dictionary) (now : Timestamp) (key : String) : FieldType → Value
  | .string => .string (data.string key)
  | .int => .int (data.int key)
  | .timestamp => .timestamp (data.timestamp key now)

def decode (schema : Schema) (data : Dictionary) (now : Timestamp) : Dictionary :=
  schema.fields.map fun field => (field.1, read data now field.1 field.2)

theorem lookup_map {g : String → FieldType → Value} {key : String} : ∀ {l : List (String × FieldType)},
    (l.map fun field => (field.1, g field.1 field.2)).lookup key = (l.lookup key).map (g key)
  | [] => rfl
  | field :: l => by
      rw [List.map_cons, List.lookup_cons, List.lookup_cons]
      cases hkey : key == field.1 with
      | false => exact lookup_map
      | true => rw [eq_of_beq hkey]; rfl

/-- What conforms is read as it was written. -/
theorem Conforms.decode {data : Dictionary} (h : schema.Conforms (data.lookup ·)) (now : Timestamp)
    (key : String) : (schema.decode data now).lookup key = data.lookup key := by
  have hkind : schema.fields.lookup key = (data.lookup key).map Value.kind := (h key).symm
  rw [Schema.decode, lookup_map, hkind]
  cases hlook : data.lookup key with
  | none => rfl
  | some value =>
      cases value <;>
        simp [Value.kind, read, Dictionary.string, Dictionary.int, Dictionary.timestamp, hlook,
          Value.asString, Value.asInt, Value.asTimestamp]

end Schema

/-! ## The formats -/

def userSchema : Schema where
  fields := [("email", .string), ("fullname", .string), ("profileImageUrl", .string),
    ("username", .string), ("uid", .string)]

def postSchema : Schema where
  fields := [("caption", .string), ("likes", .int), ("imageUrl", .string),
    ("timestamp", .timestamp), ("ownerUid", .string), ("ownerImageUrl", .string),
    ("ownerUsername", .string)]

def commentSchema : Schema where
  fields := [("uid", .string), ("username", .string), ("profileImageUrl", .string),
    ("comment", .string), ("timestamp", .timestamp)]

/-- A notification written without a post. -/
def followSchema : Schema where
  fields := [("timestamp", .timestamp), ("id", .string), ("uid", .string), ("type", .int),
    ("userProfileImageUrl", .string), ("username", .string)]

def notificationSchema : Schema where
  fields := followSchema.fields ++ [("postId", .string), ("postImageUrl", .string)]

/-! What a decoded value holds, under the keys it is stored with. -/

def User.fields (user : User) : Dictionary :=
  [("email", .string user.email), ("fullname", .string user.fullname),
   ("profileImageUrl", .string user.profileImageUrl), ("username", .string user.username),
   ("uid", .string user.uid)]

/-- Without `postId`, which is the document's id. -/
def Post.fields (post : Post) : Dictionary :=
  [("caption", .string post.caption), ("likes", .int post.likes),
   ("imageUrl", .string post.imageUrl), ("timestamp", .timestamp post.timestamp),
   ("ownerUid", .string post.ownerUid), ("ownerImageUrl", .string post.ownerImageUrl),
   ("ownerUsername", .string post.ownerUsername)]

def Comment.fields (comment : Comment) : Dictionary :=
  [("uid", .string comment.uid), ("username", .string comment.username),
   ("profileImageUrl", .string comment.profileImageUrl), ("comment", .string comment.commentText),
   ("timestamp", .timestamp comment.timestamp)]

/-- Without `postId` and `postImageUrl`. -/
def Notification.fields (notification : Notification) : Dictionary :=
  [("timestamp", .timestamp notification.timestamp), ("id", .string notification.id),
   ("uid", .string notification.uid), ("type", .int notification.type.rawValue),
   ("userProfileImageUrl", .string notification.userProfileImageUrl),
   ("username", .string notification.username)]

def Notification.postFields (notification : Notification) : Dictionary :=
  (notification.postId.map fun postId => ("postId", Value.string postId)).toList ++
    (notification.postImageUrl.map fun url => ("postImageUrl", Value.string url)).toList

variable {data : Dictionary} {now : Timestamp}

theorem user_fields : (User.init data).fields = userSchema.decode data now := rfl

theorem post_fields {p : DocId} : (Post.init p data now).fields = postSchema.decode data now := rfl

theorem comment_fields : (Comment.init data now).fields = commentSchema.decode data now := rfl

theorem rawValue_init {t : NotificationType} (h : data.lookup "type" = some (.int t.rawValue)) :
    (Notification.init data now).type = t := by
  simp [Notification.init, Dictionary.int, h, Value.asInt]

theorem notification_fields {t : NotificationType}
    (h : data.lookup "type" = some (.int t.rawValue)) :
    (Notification.init data now).fields = followSchema.decode data now := by
  have hint : data.int "type" = t.rawValue := by simp [Dictionary.int, h, Value.asInt]
  rw [Notification.fields, rawValue_init h, ← hint]
  rfl

/-! ## What the services write -/

/-- A completion that does nothing. -/
def silent : Completion := fun _ => .done

theorem under_silent {L : App → Prop} {A : (q : Ask) → q.Ans → Prop} {P : Obs sig → Prop}
    (e : Option FIRError) : (silent e).Under L A P := trivial

/-- What is seen, when it is a write, is as `W` has it. -/
def Issuing (W : Write → Prop) : Obs sig → Prop
  | .issued w => W w
  | _ => True

section

variable {W : Write → Prop} {w : Write}

theorem plain_issuing : Plain (Issuing W) := ⟨fun _ _ => trivial, fun _ => trivial⟩

theorem sends_issuing (h : W w) : Sends (Issuing W) w := ⟨h, fun _ => trivial⟩

theorem of_issues {b : Block} (h : b.Under (fun _ => True) (fun _ _ => True) (Issuing W))
    (hw : b.Issues w) : W w :=
  (h.writes fun _ hv => hv).of_issues hw

end

/-- A write of one of the app's updates of a part of a document:
`upDateUser`, and the likes of `likePost` and `unlikePost`. -/
inductive PartialUpdate (w : Write) : Prop
  | upDateUser {username fullname : String} {image : UIImage}
      (h : (AuthService.upDateUser username fullname image silent).Issues w)
  | likePost {post : Post} (h : (PostService.likePost post silent).Issues w)
  | unlikePost {post : Post} (h : (PostService.unlikePost post silent).Issues w)

/-- What such a write is; a like also writes the two documents that record
it. -/
inductive Updates : Write → Prop
  | user {uid : Uid} {data : Dictionary} (h : userSchema.Admits (data.lookup ·)) :
      Updates (.updateData ⟨.users, uid⟩ data)
  | post {p : DocId} {data : Dictionary} (h : postSchema.Admits (data.lookup ·)) :
      Updates (.updateData ⟨.posts, p⟩ data)
  | like {w : Write}
      (h : (∃ p, w.ref.collection = .postLikes p) ∨ ∃ uid, w.ref.collection = .userLikes uid) :
      Updates w

theorem updates_likes {p : DocId} {n : Int} :
    Updates (.updateData ⟨.posts, p⟩ [("likes", .int n)]) := by
  refine .post (Schema.admits_of_subset ?_)
  show [("likes", FieldType.int)] ⊆ postSchema.fields
  decide

theorem PartialUpdate.updates {w : Write} (h : PartialUpdate w) : Updates w := by
  cases h with
  | @upDateUser username fullname image h =>
      refine of_issues (under_upDateUser plain_issuing fun uid imageUrl => sends_issuing ?_) h
      refine .user (Schema.admits_of_subset ?_)
      show [("fullname", FieldType.string), ("profileImageUrl", .string), ("username", .string)] ⊆
        userSchema.fields
      decide
  | @likePost post h =>
      refine of_issues (under_likePost (fun uid => ⟨sends_issuing updates_likes, ?_, ?_⟩)
        under_silent) h
      · exact sends_issuing (.like (Or.inl ⟨_, rfl⟩))
      · exact sends_issuing (.like (Or.inr ⟨_, rfl⟩))
  | @unlikePost post h =>
      refine of_issues (under_unlikePost (fun uid => ⟨sends_issuing updates_likes, ?_, ?_⟩)
        under_silent) h
      · exact sends_issuing (.like (Or.inl ⟨_, rfl⟩))
      · exact sends_issuing (.like (Or.inr ⟨_, rfl⟩))

/-! ## Reading back -/

/-- A document written by `first`, and then by any partial updates: `holds`
is said of the stored dictionary and of what was last written under each
key. -/
def ReadsBack (first : Write → Prop) (holds : Dictionary → (String → Option Value) → Prop) :
    Prop :=
  ∀ w ws docs, first w → (∀ v ∈ ws, PartialUpdate v ∧ v.ref = w.ref) →
    ∃ docs' data, Documents.carryOut (w :: ws) docs = some docs' ∧ docs'.get w.ref = some data ∧
      holds data fun key => DocWrite.lastWritten key (w :: ws)

/-- A new document that conforms to the schema of its collection. -/
structure Creates (schema : Schema) (c : Collection) (w : Write) : Prop where
  set : w = .setData w.ref w.data
  collection : w.ref.collection = c
  conforms : schema.Conforms (w.data.lookup ·)

/-- The partial updates of that collection stay within the schema. -/
def Keeps (schema : Schema) (c : Collection) : Prop :=
  ∀ w, Updates w → w.ref.collection = c →
    w = .updateData w.ref w.data ∧ schema.Admits (w.data.lookup ·)

theorem keeps_users : Keeps userSchema .users := by
  intro w h hc
  cases h with
  | user h => exact ⟨rfl, h⟩
  | post _ => cases hc
  | like h => rcases h with ⟨_, h⟩ | ⟨_, h⟩ <;> rw [hc] at h <;> cases h

theorem keeps_posts : Keeps postSchema .posts := by
  intro w h hc
  cases h with
  | user _ => cases hc
  | post h => exact ⟨rfl, h⟩
  | like h => rcases h with ⟨_, h⟩ | ⟨_, h⟩ <;> rw [hc] at h <;> cases h

/-- Documents of no other collection are updated in part. -/
theorem Updates.collection {w : Write} (h : Updates w) :
    w.ref.collection = .users ∨ w.ref.collection = .posts ∨
      (∃ p, w.ref.collection = .postLikes p) ∨ ∃ uid, w.ref.collection = .userLikes uid := by
  cases h with
  | user _ => exact Or.inl rfl
  | post _ => exact Or.inr (Or.inl rfl)
  | like h => exact Or.inr (Or.inr h)

theorem not_updates_comment {w : Write} {p : DocId} (hc : w.ref.collection = .comments p) :
    ¬Updates w := by
  intro h
  rcases h.collection with h | h | ⟨_, h⟩ | ⟨_, h⟩ <;> rw [hc] at h <;> cases h

theorem not_updates_notification {w : Write} {uid : Uid}
    (hc : w.ref.collection = .userNotifications uid) : ¬Updates w := by
  intro h
  rcases h.collection with h | h | ⟨_, h⟩ | ⟨_, h⟩ <;> rw [hc] at h <;> cases h

/-- What conforms when it is created still does after the updates, and has
under each key what was last written. -/
theorem Creates.carryOut {schema : Schema} {c : Collection} {w : Write} {ws : List Write}
    (hw : Creates schema c w) (hkeeps : Keeps schema c)
    (hws : ∀ v ∈ ws, PartialUpdate v ∧ v.ref = w.ref) (docs : Documents Collection Value) :
    ∃ docs' data, Documents.carryOut (w :: ws) docs = some docs' ∧ docs'.get w.ref = some data ∧
      (∀ key, data.lookup key = DocWrite.lastWritten key (w :: ws)) ∧
      schema.Conforms (data.lookup ·) := by
  have hupdate : ∀ v ∈ ws, v = .updateData v.ref v.data ∧ schema.Admits (v.data.lookup ·) :=
    fun v hv => hkeeps v (hws v hv).1.updates ((congrArg _ (hws v hv).2).trans hw.collection)
  have hsame : ∀ v ∈ ws, v = .updateData w.ref v.data := fun v hv =>
    (hws v hv).2 ▸ (hupdate v hv).1
  obtain ⟨docs', data, hrun, hget, hlook⟩ := Documents.carryOut_set hsame docs
  rw [← hw.set] at hrun hlook
  refine ⟨docs', data, hrun, hget, hlook, fun key => ?_⟩
  show (data.lookup key).map Value.kind = _
  rw [hlook key]
  exact Schema.conforms_lastWritten hw.conforms (fun v hv => (hupdate v hv).2) key

/-! ## What the services create -/

theorem creates_of_keys {schema : Schema} {c : Collection} {id : String} {data : Dictionary}
    (h : (data.map fun field => (field.1, field.2.kind)) ⊆ schema.fields)
    (hkeys : schema.fields.map Prod.fst ⊆ data.map Prod.fst) :
    Creates schema c (.setData ⟨c, id⟩ data) :=
  ⟨rfl, rfl, Schema.conforms_of_keys h hkeys⟩

theorem creates_user {credentials : AuthCredentials} {w : Write}
    (hw : (AuthService.registerUser credentials silent).Issues w) :
    Creates userSchema .users w := by
  refine of_issues (under_registerUser plain_issuing (fun _ _ => trivial)
    (fun uid imageUrl => sends_issuing ?_) under_silent) hw
  refine creates_of_keys ?_ ?_
  · show [("email", FieldType.string), ("fullname", .string), ("profileImageUrl", .string),
      ("uid", .string), ("username", .string)] ⊆ userSchema.fields
    decide
  · show _ ⊆ ["email", "fullname", "profileImageUrl", "uid", "username"]
    decide

theorem creates_post {caption : String} {image : UIImage} {user : User} {w : Write}
    (hw : (PostService.uploadPost caption image user silent).Issues w)
    (hc : w.ref.collection = .posts) : Creates postSchema .posts w := by
  refine of_issues (W := fun w => w.ref.collection = .posts → Creates postSchema .posts w)
    (under_uploadPost plain_issuing (fun _ uid imageUrl e _ _ => sends_issuing fun _ => ?_)
      (fun v p => sends_issuing fun h => by cases h) under_silent) hw hc
  refine creates_of_keys ?_ ?_
  · show [("caption", FieldType.string), ("timestamp", .timestamp), ("likes", .int),
      ("imageUrl", .string), ("ownerUid", .string), ("ownerImageUrl", .string),
      ("ownerUsername", .string)] ⊆ postSchema.fields
    decide
  · show _ ⊆ ["caption", "timestamp", "likes", "imageUrl", "ownerUid", "ownerImageUrl",
      "ownerUsername"]
    decide

theorem creates_comment {comment : String} {p : DocId} {user : User} {w : Write}
    (hw : (CommentService.uploadComment comment p user silent).Issues w) :
    Creates commentSchema (.comments p) w := by
  refine of_issues (under_uploadComment plain_issuing (fun e => sends_issuing ?_)
    under_silent) hw
  refine creates_of_keys ?_ ?_
  · show [("uid", FieldType.string), ("comment", .string), ("timestamp", .timestamp),
      ("username", .string), ("profileImageUrl", .string)] ⊆ commentSchema.fields
    decide
  · show _ ⊆ ["uid", "comment", "timestamp", "username", "profileImageUrl"]
    decide

/-- A new notification of that type. -/
def Notifies (schema : Schema) (uid : Uid) (type : NotificationType) (w : Write) : Prop :=
  Creates schema (.userNotifications uid) w ∧ w.data.lookup "type" = some (.int type.rawValue)

theorem notifies_without {uid author : Uid} {fromUser : User} {type : NotificationType} {e : Env} :
    Notifies followSchema uid type (.setData ⟨.userNotifications uid, e.uuid⟩
      (NotificationService.notificationData author fromUser type e)) := by
  refine ⟨creates_of_keys ?_ ?_, rfl⟩
  · show [("timestamp", FieldType.timestamp), ("uid", .string), ("type", .int), ("id", .string),
      ("userProfileImageUrl", .string), ("username", .string)] ⊆ followSchema.fields
    decide
  · show _ ⊆ ["timestamp", "uid", "type", "id", "userProfileImageUrl", "username"]
    decide

theorem notifies_with_post {uid : Uid} {fromUser : User} {type : NotificationType} {post : Post}
    {w : Write}
    (hw : (NotificationService.uploadNotification uid fromUser type (some post)).Issues w) :
    Notifies notificationSchema uid type w := by
  refine of_issues (under_uploadNotification plain_issuing
    fun _ author e _ _ _ => sends_issuing ?_) hw
  refine ⟨creates_of_keys ?_ ?_, rfl⟩
  · show [("timestamp", FieldType.timestamp), ("uid", .string), ("type", .int), ("id", .string),
      ("userProfileImageUrl", .string), ("username", .string), ("postId", .string),
      ("postImageUrl", .string)] ⊆ notificationSchema.fields
    decide
  · show _ ⊆ ["timestamp", "uid", "type", "id", "userProfileImageUrl", "username", "postId",
      "postImageUrl"]
    decide

theorem notifies_without_post {uid : Uid} {fromUser : User} {type : NotificationType} {w : Write}
    (hw : (NotificationService.uploadNotification uid fromUser type none).Issues w) :
    Notifies followSchema uid type w :=
  of_issues (under_uploadNotification plain_issuing
    fun _ _ _ _ _ _ => sends_issuing notifies_without) hw

theorem notifies_follow {uid : Uid} {fromUser : User} {type : NotificationType} {w : Write}
    (hw : (NotificationService.uploadFollowNotification uid fromUser type).Issues w) :
    Notifies followSchema uid type w :=
  of_issues (under_uploadFollowNotification plain_issuing
    fun _ => sends_issuing notifies_without) hw

/-! ## Every format reads back -/

theorem readsBack_of_creates {schema : Schema} {c : Collection} {first : Write → Prop}
    {holds : Dictionary → (String → Option Value) → Prop}
    (hfirst : ∀ w, first w → Creates schema c w) (hkeeps : Keeps schema c)
    (hholds : ∀ data last, (∀ key, data.lookup key = last key) →
      schema.Conforms (data.lookup ·) → holds data last) : ReadsBack first holds := by
  intro w ws docs hw hws
  obtain ⟨docs', data, hrun, hget, hlook, hconforms⟩ :=
    (hfirst w hw).carryOut hkeeps hws docs
  exact ⟨docs', data, hrun, hget, hholds data _ hlook hconforms⟩

/-- A notification is never updated: its type is the one it was created
with. -/
theorem readsBack_of_notifies {schema : Schema} {uid : Uid} {type : NotificationType}
    {first : Write → Prop} {holds : Dictionary → (String → Option Value) → Prop}
    (hfirst : ∀ w, first w → Notifies schema uid type w)
    (hholds : ∀ data last, (∀ key, data.lookup key = last key) →
      schema.Conforms (data.lookup ·) → data.lookup "type" = some (.int type.rawValue) →
      holds data last) : ReadsBack first holds := by
  intro w ws docs hw hws
  obtain ⟨hcreates, htype⟩ := hfirst w hw
  have hkeeps : Keeps schema (.userNotifications uid) := fun v hv hc =>
    absurd hv (not_updates_notification hc)
  obtain ⟨docs', data, hrun, hget, hlook, hconforms⟩ := hcreates.carryOut hkeeps hws docs
  refine ⟨docs', data, hrun, hget, hholds data _ hlook hconforms ?_⟩
  obtain rfl : ws = [] := List.eq_nil_iff_forall_not_mem.mpr fun v hv =>
    not_updates_notification ((congrArg _ (hws v hv).2).trans hcreates.collection)
      (hws v hv).1.updates
  rw [hlook, DocWrite.lastWritten, DocWrite.lastWritten, Option.none_or, htype]

/-- Whatever the services write, followed by any of the app's partial
updates of the same document, is decoded field by field as it was last
written; a notification written without a post has two empty strings for
what it has no field of. -/
theorem formats_readBack (now : Timestamp) :
    (∀ credentials, ReadsBack (fun w => (AuthService.registerUser credentials silent).Issues w)
      fun data last => ∀ key, (User.init data).fields.lookup key = last key) ∧
    (∀ caption image user p, ReadsBack (fun w =>
        (PostService.uploadPost caption image user silent).Issues w ∧ w.ref.collection = .posts)
      fun data last => ∀ key, (Post.init p data now).fields.lookup key = last key) ∧
    (∀ comment p user,
      ReadsBack (fun w => (CommentService.uploadComment comment p user silent).Issues w)
      fun data last => ∀ key, (Comment.init data now).fields.lookup key = last key) ∧
    (∀ uid fromUser type post, ReadsBack (fun w =>
        (NotificationService.uploadNotification uid fromUser type (some post)).Issues w)
      fun data last => ∀ key, ((Notification.init data now).fields ++
        (Notification.init data now).postFields).lookup key = last key) ∧
    (∀ uid fromUser type, ReadsBack (fun w =>
        (NotificationService.uploadNotification uid fromUser type none).Issues w ∨
        (NotificationService.uploadFollowNotification uid fromUser type).Issues w)
      fun data last => (∀ key, (Notification.init data now).fields.lookup key = last key) ∧
        (Notification.init data now).postId = some "" ∧
        (Notification.init data now).postImageUrl = some "") := by
  refine ⟨fun credentials => ?_, fun caption image user p => ?_, fun comment p user => ?_,
    fun uid fromUser type post => ?_, fun uid fromUser type => ?_⟩
  · refine readsBack_of_creates (fun w => creates_user) keeps_users
      fun data last hlook hconforms key => ?_
    rw [@user_fields data now, hconforms.decode, hlook]
  · refine readsBack_of_creates (fun w hw => creates_post hw.1 hw.2) keeps_posts
      fun data last hlook hconforms key => ?_
    rw [post_fields, hconforms.decode, hlook]
  · have hkeeps : Keeps commentSchema (.comments p) := fun w hw hc =>
      absurd hw (not_updates_comment hc)
    refine readsBack_of_creates (fun w => creates_comment) hkeeps
      fun data last hlook hconforms key => ?_
    rw [comment_fields, hconforms.decode, hlook]
  · refine readsBack_of_notifies (fun w => notifies_with_post)
      fun data last hlook hconforms htype key => ?_
    rw [notification_fields htype, ← hlook, ← hconforms.decode now]
    rfl
  · refine readsBack_of_notifies (fun w hw => hw.elim notifies_without_post notifies_follow)
      fun data last hlook hconforms htype => ⟨fun key => ?_, ?_, ?_⟩
    · rw [notification_fields htype, hconforms.decode, hlook]
    · have hnone : data.lookup "postId" = none := Option.map_eq_none_iff.mp (hconforms "postId")
      simp [Notification.init, Dictionary.string, hnone]
    · have hnone : data.lookup "postImageUrl" = none :=
        Option.map_eq_none_iff.mp (hconforms "postImageUrl")
      simp [Notification.init, Dictionary.string, hnone]

/-- Amy registers, and then edits her profile. -/
def amyRenamed : List Write :=
  [.setData ⟨.users, "u"⟩ (AuthService.userData amy "old" "u"),
    .updateData ⟨.users, "u"⟩
      [("fullname", .string "Amy B"), ("profileImageUrl", .string "new"),
        ("username", .string "amyb")]]
where
  amy : AuthCredentials := ⟨"a@b", "pw", "Amy", "amy", ⟨some []⟩⟩

theorem issues_amyRegistered :
    (AuthService.registerUser amyRenamed.amy silent).Issues
      (DocWrite.setData ⟨.users, "u"⟩ (AuthService.userData amyRenamed.amy "old" "u")) :=
  Or.inl ⟨⟨"", ⟨0, 0⟩⟩, Or.inl ⟨none, Or.inl ⟨some "old", Or.inl ⟨.ok "u", Or.inl (Or.inl rfl)⟩⟩⟩⟩

theorem partialUpdate_amyRenamed : PartialUpdate (.updateData ⟨.users, "u"⟩
    [("fullname", .string "Amy B"), ("profileImageUrl", .string "new"),
      ("username", .string "amyb")]) :=
  @PartialUpdate.upDateUser _ "amyb" "Amy B" ⟨some []⟩
    ⟨{ currentUser := some "u" }, ⟨"", ⟨0, 0⟩⟩, Or.inl ⟨none, Or.inl ⟨some "new", Or.inl rfl⟩⟩⟩

theorem formats_readBack_amyRenamed : ∃ docs data,
    Documents.carryOut amyRenamed Documents.empty = some docs ∧
      docs.get ⟨.users, "u"⟩ = some data ∧
      ∀ key, (User.init data).fields.lookup key = DocWrite.lastWritten key amyRenamed := by
  refine (formats_readBack ⟨0, 0⟩).1 amyRenamed.amy _ _ Documents.empty issues_amyRegistered ?_
  intro v hv
  rw [List.mem_singleton.mp hv]
  exact ⟨partialUpdate_amyRenamed, rfl⟩

example : ((Documents.carryOut amyRenamed Documents.empty).bind (·.get ⟨.users, "u"⟩)).map
    (fun data => (User.init data).fields) =
      some [("email", .string "a@b"), ("fullname", .string "Amy B"),
        ("profileImageUrl", .string "new"), ("username", .string "amyb"),
        ("uid", .string "u")] := by
  decide

end DogVillage
