import DogVillage.Async.Owe
import DogVillage.Async.Outcome
import DogVillage.Village
import DogVillage.Completions
import DogVillage.AccountCalls
import DogVillage.AccountFates
import DogVillage.Async.Echo
import DogVillage.Edges
import DogVillage.Failures
import DogVillage.LikeBounds
import DogVillage.Removals
import DogVillage.Async.Reach
import DogVillage.Async.Repair
import DogVillage.Async.Segment
import DogVillage.Authors
import DogVillage.Bylines
import DogVillage.Changes
import DogVillage.Comments
import DogVillage.CommentLists
import DogVillage.Counts
import DogVillage.Deliveries
import DogVillage.FeedPosts
import DogVillage.Flags
import DogVillage.Fanouts
import DogVillage.Feeds
import DogVillage.LikeSides
import DogVillage.Network
import DogVillage.Displays
import DogVillage.Origins
import DogVillage.Orders
import DogVillage.Sweeps
import DogVillage.Authority
import DogVillage.Records
import DogVillage.Receipts
import DogVillage.FollowCounts
import DogVillage.FollowPaths
import DogVillage.Formats
import DogVillage.Forms
import DogVillage.Likes
import DogVillage.Loader
import DogVillage.PostLists
import DogVillage.Search
import DogVillage.SearchTable
