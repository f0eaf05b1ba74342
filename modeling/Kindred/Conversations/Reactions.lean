import Mathlib.Data.List.Sort
import Mathlib.Data.Prod.Lex
import Mathlib.Data.List.Lex
import Kindred.Database
import Kindred.Lib.Utf16

/-! What readers see of a message's reactions: the summary of the stored rows,
and the same list with one toggle drawn into it before the server answers. -/

namespace Kindred.Conversations
open Lib (utf16)

def messageReactionEmojis : List String := ["❤️", "👍", "😂", "😮", "😢", "🙏"]

inductive ReactionActorType where
  | visitor
  | operator
  deriving DecidableEq

/-- A row of `conversation_message_reactions`, with the checks of its columns. -/
structure ReactionRow where
  messageId : Id
  emoji : String
  actorType : ReactionActorType
  actorId : Option Id
  emoji_check : 1 ≤ emoji.length ∧ emoji.length ≤ 16
  actor_check : actorType = .visitor ∧ actorId = none ∨ actorType = .operator ∧ actorId ≠ none
  deriving DecidableEq

/-- The table: one row per message, actor and emoji. -/
structure Reactions where
  rows : List ReactionRow
  one_per_actor : rows.Nodup

structure MessageReactionSummary where
  emoji : String
  count : ℕ
  visitor : Bool
  mine : Bool

inductive ReactionViewer where
  | visitor
  | operator (userId : Id)

def emojiRank (emoji : String) : ℕ := messageReactionEmojis.idxOf emoji

def compareEmoji (a b : String) : Int :=
  let byRank := (emojiRank a : Int) - emojiRank b
  if byRank ≠ 0 then byRank
  else if utf16 a < utf16 b then -1
  else if utf16 b < utf16 a then 1
  else 0

def ordered (list : List MessageReactionSummary) : List MessageReactionSummary :=
  list.insertionSort fun a b => compareEmoji a.emoji b.emoji ≤ 0

def ReactionViewer.gave (viewer : ReactionViewer) (row : ReactionRow) : Bool :=
  match viewer with
  | .visitor => row.actorType = .visitor
  | .operator userId => row.actorType = .operator && row.actorId = some userId

/-- One more row of `summarizeReactions`. -/
def tally (viewer : ReactionViewer) (byMessage : Table Id (Table String MessageReactionSummary))
    (row : ReactionRow) : Table Id (Table String MessageReactionSummary) :=
  if row.emoji = "" then byMessage
  else
    let kinds := (byMessage.get row.messageId).getD .empty
    let entry := (kinds.get row.emoji).getD
      { emoji := row.emoji, count := 0, visitor := false, mine := false }
    byMessage.put row.messageId (kinds.put row.emoji
      { entry with
        count := entry.count + 1
        visitor := row.actorType = .visitor || entry.visitor
        mine := viewer.gave row || entry.mine })

def summarizeReactions (rows : List ReactionRow) (viewer : ReactionViewer) :
    Table Id (List MessageReactionSummary) :=
  (rows.foldl (tally viewer) .empty).rows.foldl
    (fun out kinds => out.put kinds.1 (ordered (kinds.2.rows.map Prod.snd))) .empty

def editEntry (emoji : String) (f : MessageReactionSummary → MessageReactionSummary) :
    List MessageReactionSummary → List MessageReactionSummary
  | [] => []
  | r :: rs => if r.emoji = emoji then f r :: rs else r :: editEntry emoji f rs

def applyReactionToggle (list : Option (List MessageReactionSummary)) (emoji : String) (on : Bool)
    (actor : ReactionActorType) : List MessageReactionSummary :=
  let current := list.getD []
  let entry := current.find? fun r => r.emoji = emoji
  if on then
    match entry with
    | some entry =>
      if entry.mine then current
      else
        editEntry emoji (fun r => { r with
          count := r.count + 1
          mine := true
          visitor := if actor = .visitor then true else r.visitor }) current
    | none =>
      ordered (current ++ [{ emoji, count := 1, visitor := actor = .visitor, mine := true }])
  else
    match entry with
    | none => current
    | some entry =>
      if !entry.mine then current
      else
        (editEntry emoji (fun r => { r with
          count := r.count - 1
          mine := false
          visitor := if actor = .visitor then false else r.visitor }) current).filter
            fun r => 0 < r.count

structure Emoji where
  text : String
  emoji_check : 1 ≤ text.length ∧ text.length ≤ 16

def ReactionViewer.actorType : ReactionViewer → ReactionActorType
  | .visitor => .visitor
  | .operator _ => .operator

def ReactionViewer.row (viewer : ReactionViewer) (messageId : Id) (emoji : Emoji) : ReactionRow :=
  match viewer with
  | .visitor => ⟨messageId, emoji.text, .visitor, none, emoji.emoji_check, .inl ⟨rfl, rfl⟩⟩
  | .operator userId =>
    ⟨messageId, emoji.text, .operator, some userId, emoji.emoji_check, .inr ⟨rfl, nofun⟩⟩

/-- The insert that the unique key may refuse, or the delete. -/
def setMessageReaction (t : Reactions) (viewer : ReactionViewer) (messageId : Id) (emoji : Emoji)
    (on : Bool) : Reactions :=
  let row := viewer.row messageId emoji
  if on then
    if h : row ∈ t.rows then t
    else ⟨t.rows ++ [row], t.one_per_actor.append (List.nodup_singleton row) (by simpa using h)⟩
  else ⟨t.rows.filter (· ≠ row), t.one_per_actor.filter _⟩

end Kindred.Conversations
