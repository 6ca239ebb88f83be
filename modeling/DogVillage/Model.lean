import DogVillage.Async.Documents

/-!
# The stored data and its decoded forms

`User`, `Post` and `Notification` as the app decodes them from the
dictionaries Firestore returns: a missing key, or a value of another type,
gives the field's default. Where the default is the time of decoding
(`Timestamp(date: Date())`), that time is an argument.
-/

namespace DogVillage

open Async

abbrev Uid := String

/-- A document id. -/
abbrev DocId := String

structure Timestamp where
  seconds : Int
  nanoseconds : Int
deriving DecidableEq, Repr

inductive Value
  | string (s : String)
  | int (i : Int)
  | timestamp (t : Timestamp)
deriving DecidableEq, Repr

abbrev Dictionary := Fields Value

namespace Timestamp

def le (a b : Timestamp) : Bool :=
  a.seconds < b.seconds || (a.seconds == b.seconds && a.nanoseconds ≤ b.nanoseconds)

theorem le_total (a b : Timestamp) : a.le b = true ∨ b.le a = true := by
  simp only [le, Bool.or_eq_true, Bool.and_eq_true, decide_eq_true_eq, beq_iff_eq]
  omega

theorem le_trans {a b c : Timestamp} (hab : a.le b = true) (hbc : b.le c = true) :
    a.le c = true := by
  simp only [le, Bool.or_eq_true, Bool.and_eq_true, decide_eq_true_eq, beq_iff_eq] at *
  omega

theorem le_antisymm {a b : Timestamp} (hab : a.le b = true) (hba : b.le a = true) : a = b := by
  obtain ⟨s, n⟩ := a
  obtain ⟨s', n'⟩ := b
  simp only [le, Bool.or_eq_true, Bool.and_eq_true, decide_eq_true_eq, beq_iff_eq] at hab hba
  obtain ⟨rfl, rfl⟩ : s = s' ∧ n = n' := by omega
  rfl

end Timestamp

namespace Value

/-- `as? String` -/
def asString : Value → Option String
  | string s => some s
  | _ => none

/-- `as? Int` -/
def asInt : Value → Option Int
  | int i => some i
  | _ => none

/-- `as? Timestamp` -/
def asTimestamp : Value → Option Timestamp
  | timestamp t => some t
  | _ => none

/-- Firestore's order of values: numbers, then timestamps, then strings. -/
def le : Value → Value → Bool
  | int i, int j => i ≤ j
  | int _, _ => true
  | timestamp _, int _ => false
  | timestamp t, timestamp u => t.le u
  | timestamp _, string _ => true
  | string s, string t => s ≤ t
  | string _, _ => false

instance : LE Value := ⟨fun v w => v.le w = true⟩

instance : DecidableLE Value := fun v w => inferInstanceAs (Decidable (v.le w = true))

theorem le_total (v w : Value) : v.le w = true ∨ w.le v = true := by
  cases v <;> cases w <;> simp only [le, decide_eq_true_eq, Bool.false_eq_true, or_true, or_false]
  · exact String.le_total _ _
  · exact Int.le_total _ _
  · exact Timestamp.le_total _ _

theorem le_trans {v w x : Value} (hvw : v.le w = true) (hwx : w.le x = true) : v.le x = true := by
  cases v <;> cases w <;> cases x <;>
    simp only [le, decide_eq_true_eq, Bool.false_eq_true] at hvw hwx ⊢
  · exact String.le_trans hvw hwx
  · exact Int.le_trans hvw hwx
  · exact Timestamp.le_trans hvw hwx

instance : Std.Total fun v w : Value => v ≤ w := ⟨le_total⟩

instance : IsTrans Value (· ≤ ·) := ⟨fun _ _ _ => le_trans⟩

end Value

namespace Dictionary

/-- `dictionary[key] as? String ?? ""` -/
def string (d : Dictionary) (key : String) : String :=
  ((d.lookup key).bind Value.asString).getD ""

/-- `dictionary[key] as? Int ?? 0` -/
def int (d : Dictionary) (key : String) : Int :=
  ((d.lookup key).bind Value.asInt).getD 0

/-- `dictionary[key] as? Timestamp ?? Timestamp(date: Date())` -/
def timestamp (d : Dictionary) (key : String) (now : Timestamp) : Timestamp :=
  ((d.lookup key).bind Value.asTimestamp).getD now

end Dictionary

structure UserStats where
  followers : Int
  following : Int
  posts : Int
deriving DecidableEq, Repr

structure User where
  email : String
  fullname : String
  profileImageUrl : String
  username : String
  uid : Uid
  isFollowed : Bool := false
  stats : UserStats := ⟨0, 0, 0⟩
deriving DecidableEq, Repr

def User.init (dictionary : Dictionary) : User where
  email := dictionary.string "email"
  fullname := dictionary.string "fullname"
  profileImageUrl := dictionary.string "profileImageUrl"
  username := dictionary.string "username"
  uid := dictionary.string "uid"

structure Post where
  caption : String
  likes : Int
  imageUrl : String
  ownerUid : Uid
  timestamp : Timestamp
  postId : DocId
  ownerImageUrl : String
  ownerUsername : String
  didLike : Bool := false
deriving DecidableEq, Repr

def Post.init (postId : DocId) (dictionary : Dictionary) (now : Timestamp) : Post where
  postId := postId
  caption := dictionary.string "caption"
  likes := dictionary.int "likes"
  imageUrl := dictionary.string "imageUrl"
  timestamp := dictionary.timestamp "timestamp" now
  ownerUid := dictionary.string "ownerUid"
  ownerImageUrl := dictionary.string "ownerImageUrl"
  ownerUsername := dictionary.string "ownerUsername"

structure Comment where
  uid : Uid
  username : String
  profileImageUrl : String
  timestamp : Timestamp
  commentText : String
deriving DecidableEq, Repr

def Comment.init (dictionary : Dictionary) (now : Timestamp) : Comment where
  uid := dictionary.string "uid"
  username := dictionary.string "username"
  profileImageUrl := dictionary.string "profileImageUrl"
  commentText := dictionary.string "comment"
  timestamp := dictionary.timestamp "timestamp" now

inductive NotificationType
  | like
  | follow
  | comment
deriving DecidableEq, Repr

namespace NotificationType

def rawValue : NotificationType → Int
  | like => 0
  | follow => 1
  | comment => 2

def init (rawValue : Int) : Option NotificationType :=
  if rawValue = 0 then some like
  else if rawValue = 1 then some follow
  else if rawValue = 2 then some comment
  else none

@[simp] theorem init_rawValue (t : NotificationType) : init t.rawValue = some t := by
  cases t <;> rfl

end NotificationType

structure Notification where
  uid : Uid
  postImageUrl : Option String
  postId : Option DocId
  timestamp : Timestamp
  type : NotificationType
  id : DocId
  userProfileImageUrl : String
  username : String
  userIsFollowed : Bool := false
deriving DecidableEq, Repr

def Notification.init (dictionary : Dictionary) (now : Timestamp) : Notification where
  timestamp := dictionary.timestamp "timestamp" now
  id := dictionary.string "id"
  uid := dictionary.string "uid"
  postId := some (dictionary.string "postId")
  postImageUrl := some (dictionary.string "postImageUrl")
  type := (NotificationType.init (dictionary.int "type")).getD .like
  userProfileImageUrl := dictionary.string "userProfileImageUrl"
  username := dictionary.string "username"

/-- A picture; `jpegData` is what its JPEG encoding gives, if it has one. -/
structure UIImage where
  jpegData : Option (List UInt8)
deriving DecidableEq, Repr

end DogVillage
