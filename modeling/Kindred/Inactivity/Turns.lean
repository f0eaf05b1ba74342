import Kindred.Inactivity.Jsonb
import Kindred.Inactivity.Stamps

/-!
Whose turn a message is: `conversation_message_turn`, which the inactivity
close goes by, and `needsReply.ts`, which the Inbox goes by.
-/

namespace Kindred.Inactivity
open Rest (trim)

/-- `conversation_messages` -/
structure ConversationMessage where
  conversationId : Id
  senderType : Option String
  body : Option String := none
  metadata : Option Jsonb := none
  createdAt : Timestamp
  id : String := ""

inductive Turn where
  | visitor | team
  deriving DecidableEq

/-- The characters of the `btrim` are those of `trim`. -/
def conversationMessageTurn (senderType body : Option String) (metadata : Option Jsonb) :
    Option Turn :=
  if senderType ∉ [some "contact", some "agent", some "ai"] then none
  else if isString (field metadata "routing_notice") then none
  else if sqlText (field metadata "channel_menu_event") = "true" then none
  else if !sqlEmpty (field metadata "channel_menu_command") then none
  else if trim (body.getD "") = "" ∧ sqlEmpty (field metadata "attachment_id") ∧
      ¬ 0 < arrayLength (field metadata "attachments") then none
  else if senderType = some "contact" then
    if isTrue (field metadata "provider_echo") then none else some .visitor
  else if sqlText (field metadata "channel_delivery_skip") = "true" then none
  else if sqlText (field metadata "channel_delivery") = "failed" then none
  else if senderType = some "ai" ∧ (field metadata "handoff").any (·.spells "true") then none
  else some .team

def ConversationMessage.turn (m : ConversationMessage) : Option Turn :=
  conversationMessageTurn m.senderType m.body m.metadata

inductive Direction where
  | inbound | outbound
  deriving DecidableEq

structure ResumeCandidate where
  senderType : Option String
  direction : Direction
  text : Option String := none
  attachmentCount : ℕ := 0
  isMenuEvent : Bool := false
  isInternalNote : Bool := false
  isSystemGenerated : Bool := false
  isEcho : Bool := false

structure ResumeEligibility where
  eligible : Bool
  reason : String

def isInboundCustomerMessageEligibleForResume (candidate : ResumeCandidate) : ResumeEligibility :=
  if candidate.direction ≠ .inbound then ⟨false, "not_inbound"⟩
  else if candidate.isEcho then ⟨false, "provider_echo"⟩
  else if candidate.senderType.getD "" ≠ "contact" then ⟨false, "sender_not_customer"⟩
  else if candidate.isInternalNote then ⟨false, "internal_note"⟩
  else if candidate.isSystemGenerated then ⟨false, "system_generated"⟩
  else if candidate.isMenuEvent then ⟨false, "menu_navigation"⟩
  else
    let hasText := candidate.text.any (trim · ≠ "")
    let hasAttachment := 0 < candidate.attachmentCount
    if !hasText ∧ !hasAttachment then ⟨false, "empty_message"⟩
    else ⟨true, "customer_replied"⟩

structure NeedsReplyMessage where
  senderType : Option String
  body : Option String
  createdAt : Option String
  metadata : Option Jsonb
  attachmentCount : Option ℕ := none

/-- The row in JSON, which knows no count of attachments. -/
def ConversationMessage.read (m : ConversationMessage) : NeedsReplyMessage where
  senderType := m.senderType
  body := m.body
  createdAt := some (createdAtText m.createdAt)
  metadata := m.metadata

section NeedsReply
variable (d : Doubles) (m : NeedsReplyMessage)

def NeedsReplyMessage.md (key : String) : Option Jsonb := field m.metadata key

def isMenuEvent : Option Bool := do
  let event ← jsString d (m.md "channel_menu_event")
  return event = "true" || truthy (m.md "channel_menu_command")

def isSystemGenerated : Bool :=
  m.senderType.getD "" = "system" || isString (m.md "routing_notice")

def channelAttachmentCount : ℕ := arrayLength (m.md "attachments")

def hasContent : Bool :=
  (m.body.map trim).getD "" ≠ "" || 0 < m.attachmentCount.getD 0 ||
    truthy (m.md "attachment_id") || 0 < channelAttachmentCount m

def isActionableCustomerTurn : Option Bool := do
  let menuEvent ← isMenuEvent d m
  return (isInboundCustomerMessageEligibleForResume {
    senderType := m.senderType
    direction := .inbound
    text := m.body.getD ""
    attachmentCount :=
      if m.attachmentCount.getD 0 ≠ 0 then m.attachmentCount.getD 0
      else if truthy (m.md "attachment_id") then 1
      else channelAttachmentCount m
    isMenuEvent := menuEvent
    isSystemGenerated := isSystemGenerated m
    isEcho := isTrue (m.md "provider_echo") }).eligible

def isPermanentlyUndelivered : Option Bool := do
  return (← jsString d (m.md "channel_delivery")) = "failed"

def isAiHandoffLine : Bool :=
  m.senderType.getD "" = "ai" && (m.md "handoff").any (·.spells "true")

def isQualifiedCustomerFacingAnswer : Option Bool := do
  if m.senderType.getD "" ∉ ["agent", "ai"] then return false
  if isSystemGenerated m then return false
  if ← isMenuEvent d m then return false
  if (← jsString d (m.md "channel_delivery_skip")) = "true" then return false
  if ← isPermanentlyUndelivered d m then return false
  if isAiHandoffLine m then return false
  return hasContent m

end NeedsReply

namespace ConversationMessage
variable (m : ConversationMessage)

def md (key : String) : Option Jsonb := field m.metadata key

def contact : Bool := m.senderType = some "contact"

def reply : Bool := m.senderType = some "agent" ∨ m.senderType = some "ai"

def marked (word key : String) : Bool := (m.md key).any (·.spells word)

/-- The marker says it to `String` only, in an array of one. -/
def wrapped (word key : String) : Bool := (m.md key).any (·.wraps word)

def printable (key : String) : Bool := (m.md key).all (·.printable)

def bare : Bool := trim (m.body.getD "") = "" ∧ arrayLength (m.md "attachments") = 0

def transparent : Bool :=
  !(m.contact || m.reply) || isString (m.md "routing_notice") ||
    m.marked "true" "channel_menu_event" || truthy (m.md "channel_menu_command") ||
    m.bare && !truthy (m.md "attachment_id") && !tiny (m.md "attachment_id") ||
    m.contact && isTrue (m.md "provider_echo") ||
    m.reply && (m.marked "true" "channel_delivery_skip" || m.marked "failed" "channel_delivery" ||
      m.senderType = some "ai" && m.marked "true" "handoff")

def sqlLooksThrough : Bool := tiny (m.md "channel_menu_command")

def tsLooksThrough : Bool :=
  m.wrapped "true" "channel_menu_event" || m.bare && tiny (m.md "attachment_id") ||
    m.reply && (m.wrapped "true" "channel_delivery_skip" || m.wrapped "failed" "channel_delivery")

/-- `String` is given nothing that it cannot print. -/
def prints : Bool :=
  m.printable "channel_menu_event" &&
    (!m.reply || isString (m.md "routing_notice") ||
      m.marked "true" "channel_menu_event" || m.wrapped "true" "channel_menu_event" ||
      truthy (m.md "channel_menu_command") ||
      m.printable "channel_delivery_skip" &&
        (m.marked "true" "channel_delivery_skip" || m.wrapped "true" "channel_delivery_skip" ||
          m.printable "channel_delivery"))

def readAlike : Bool := m.prints && (m.transparent || m.sqlLooksThrough == m.tsLooksThrough)

/-- SQL and TypeScript see the same turn in the message. -/
def Agrees (d : Doubles) : Prop :=
  isActionableCustomerTurn d m.read = some (decide (m.turn = some .visitor)) ∧
    isQualifiedCustomerFacingAnswer d m.read = some (decide (m.turn = some .team))

variable {m}

theorem turn_eq : m.turn = if m.transparent || m.sqlLooksThrough then none
      else if m.contact then some .visitor else some .team := by
  have hbare : m.bare = decide (trim (m.body.getD "") = "" ∧
      ¬ 0 < arrayLength (m.md "attachments")) := by
    simp [bare]
  unfold turn conversationMessageTurn transparent sqlLooksThrough
  simp only [sqlText_eq (.inl rfl), sqlText_eq (.inr rfl), sqlEmpty_eq, hbare, marked, md]
  by_cases hcontact : m.senderType = some "contact"
  · simp only [contact, reply, hcontact]
    grind
  by_cases hagent : m.senderType = some "agent"
  · simp only [contact, reply, hagent]
    grind
  by_cases hai : m.senderType = some "ai"
  · simp only [contact, reply, hai]
    grind
  simp [contact, reply, hcontact, hagent, hai]

theorem string_eq {w : String} (hw : Jsonb.Word w) (d : Doubles) (key : String) :
    (jsString d (m.md key)).map (fun s => decide (s = w)) =
      if m.printable key then some (m.marked w key || m.wrapped w key) else none := by
  have hword := jsString_eq hw d (m.md key)
  have hprints := jsString_isSome d (m.md key)
  unfold printable marked wrapped
  rw [← hprints]
  cases h : jsString d (m.md key) with
  | none => rfl
  | some s =>
    rw [h, Option.some.injEq, ← Bool.or_eq_true] at hword
    simp only [Option.map_some, Option.isSome_some, if_true, Option.some.injEq]
    exact Bool.eq_iff_iff.mpr (by rw [decide_eq_true_eq, hword])

theorem isMenuEvent_eq (d : Doubles) :
    isMenuEvent d m.read = if m.printable "channel_menu_event" then
      some (m.marked "true" "channel_menu_event" || m.wrapped "true" "channel_menu_event" ||
        truthy (m.md "channel_menu_command")) else none := by
  have h := string_eq (m := m) (.inl rfl) d "channel_menu_event"
  change (jsString d (m.md "channel_menu_event")).bind (fun event =>
    some (decide (event = "true") || truthy (m.md "channel_menu_command"))) = _
  cases hs : jsString d (m.md "channel_menu_event") <;> rw [hs] at h <;> split at h <;> simp_all

theorem hasContent_eq : hasContent m.read = (!m.bare || truthy (m.md "attachment_id")) := by
  have hbody : (m.body.map trim).getD "" = trim (m.body.getD "") := by
    cases m.body
    · decide
    · rfl
  unfold hasContent bare channelAttachmentCount read NeedsReplyMessage.md md
  simp only [hbody, Option.getD_none]
  cases truthy (field m.metadata "attachment_id") <;>
    by_cases hb : trim (m.body.getD "") = "" <;> simp [hb, Nat.pos_iff_ne_zero]

theorem eligible_eq (c : ResumeCandidate) : (isInboundCustomerMessageEligibleForResume c).eligible =
      (decide (c.direction = .inbound) && !c.isEcho && decide (c.senderType.getD "" = "contact") &&
        !c.isInternalNote && !c.isSystemGenerated && !c.isMenuEvent &&
        (c.text.any (trim · ≠ "") || decide (0 < c.attachmentCount))) := by
  unfold isInboundCustomerMessageEligibleForResume
  dsimp only
  split_ifs <;> simp_all [Nat.pos_iff_ne_zero, or_iff_not_imp_left]

theorem content_eq : (!m.bare || truthy (m.md "attachment_id")) =
      (!(m.bare && !truthy (m.md "attachment_id") && !tiny (m.md "attachment_id")) &&
        !(m.bare && tiny (m.md "attachment_id"))) := by
  have := @not_truthy_of_tiny (m.md "attachment_id")
  cases m.bare <;> cases ht : tiny (m.md "attachment_id") <;> simp_all

theorem isActionable_eq (d : Doubles) :
    isActionableCustomerTurn d m.read = if m.printable "channel_menu_event" then
      some (m.contact && !m.transparent && !m.tsLooksThrough) else none := by
  have hmenu := isMenuEvent_eq (m := m) d
  unfold isActionableCustomerTurn
  rw [hmenu]
  split
  swap
  · rfl
  have hcontent : ((some (m.body.getD "")).any (trim · ≠ "") || decide (0 <
      if truthy (m.md "attachment_id") then 1 else channelAttachmentCount m.read)) =
      (!m.bare || truthy (m.md "attachment_id")) := by
    unfold bare channelAttachmentCount read NeedsReplyMessage.md md
    cases truthy (field m.metadata "attachment_id") <;>
      by_cases hb : trim (m.body.getD "") = "" <;> simp [hb, Nat.pos_iff_ne_zero]
  have hsender : decide (m.senderType.getD "" = "contact") = m.contact := by
    unfold contact
    cases m.senderType <;> simp
  have hsystem : isSystemGenerated m.read =
      (decide (m.senderType = some "system") || isString (m.md "routing_notice")) := by
    unfold isSystemGenerated read NeedsReplyMessage.md md
    cases m.senderType <;> simp
  have hread (key : String) : m.read.md key = m.md key := rfl
  have hcount : m.read.attachmentCount.getD 0 = 0 := rfl
  have hrow : m.read.body = m.body ∧ m.read.senderType = m.senderType := ⟨rfl, rfl⟩
  simp only [Option.bind_eq_bind, Option.bind_some, Option.pure_def, eligible_eq, hsystem, hread,
    hcount, hrow, hsender, ne_eq, not_true_eq_false, if_false, decide_true, Bool.true_and,
    Option.some.injEq] at hcontent ⊢
  rw [hcontent, content_eq]
  by_cases hc : m.senderType = some "contact"
  · have hcontact : m.contact = true ∧ m.reply = false := by simp [contact, reply, hc]
    unfold transparent tsLooksThrough
    grind
  · simp [contact, hc]

theorem isPermanentlyUndelivered_eq (d : Doubles) :
    isPermanentlyUndelivered d m.read = if m.printable "channel_delivery" then
      some (m.marked "failed" "channel_delivery" || m.wrapped "failed" "channel_delivery")
    else none := by
  rw [← string_eq (.inr rfl) d]
  change (jsString d (m.md "channel_delivery")).bind (fun s => some (decide (s = "failed"))) = _
  cases jsString d (m.md "channel_delivery") <;> rfl

theorem isQualified_eq (d : Doubles) (h : m.printable "channel_menu_event") :
    isQualifiedCustomerFacingAnswer d m.read = if m.prints then
      some (m.reply && !m.transparent && !m.tsLooksThrough) else none := by
  have hread (key : String) : m.read.md key = m.md key := rfl
  have hskip := string_eq (m := m) (.inl rfl) d "channel_delivery_skip"
  have hsender : m.read.senderType = m.senderType := rfl
  unfold isQualifiedCustomerFacingAnswer
  by_cases hr : m.reply
  · have hmem : m.senderType.getD "" ∈ ["agent", "ai"] := by
      rcases of_decide_eq_true hr with hs | hs <;> simp [hs]
    have hcontact : m.contact = false := by
      rcases of_decide_eq_true hr with hs | hs <;> simp [contact, hs]
    have hsystem : isSystemGenerated m.read = isString (m.md "routing_notice") := by
      unfold isSystemGenerated
      rw [hsender, hread]
      rcases of_decide_eq_true hr with hs | hs <;> simp [hs]
    have hline : isAiHandoffLine m.read =
        (decide (m.senderType = some "ai") && m.marked "true" "handoff") := by
      unfold isAiHandoffLine
      rw [hsender, hread]
      rcases of_decide_eq_true hr with hs | hs <;> simp [hs, marked]
    simp only [isMenuEvent_eq, if_pos h, isPermanentlyUndelivered_eq, hsystem, hline, hread,
      hsender, hmem, hasContent_eq, content_eq]
    unfold prints transparent tsLooksThrough
    simp only [h, hr, hcontact, Option.bind_eq_bind, Option.bind_some, Option.pure_def,
      not_true_eq_false, if_false]
    cases isString (m.md "routing_notice")
    swap
    · simp
    cases m.marked "true" "channel_menu_event"
    swap
    · simp
    cases m.wrapped "true" "channel_menu_event"
    swap
    · simp
    cases truthy (m.md "channel_menu_command")
    swap
    · simp
    cases hp : m.printable "channel_delivery_skip" <;> rw [hp] at hskip
    · simp_all
    obtain ⟨s, hs, hword⟩ := Option.map_eq_some_iff.mp hskip
    rw [hs]
    cases hm : m.marked "true" "channel_delivery_skip" <;>
      cases hw : m.wrapped "true" "channel_delivery_skip" <;>
      cases hd : m.printable "channel_delivery" <;> simp_all
    cases m.marked "failed" "channel_delivery" <;> cases m.wrapped "failed" "channel_delivery" <;>
      simp
    grind
  · have hmem : m.senderType.getD "" ∉ ["agent", "ai"] := by
      intro hmem
      refine hr (decide_eq_true ?_)
      cases hs : m.senderType <;> simp_all
    simp [hsender, hmem, prints, h, hr]

theorem agrees_iff (d : Doubles) (m : ConversationMessage) : m.Agrees d ↔ m.readAlike := by
  unfold Agrees
  have hturn := turn_eq (m := m)
  have hprints : m.prints → m.printable "channel_menu_event" := by
    unfold prints
    grind
  rw [isActionable_eq]
  by_cases hp : m.printable "channel_menu_event"
  · rw [isQualified_eq d hp, if_pos hp, hturn]
    have hsender : ¬ (m.contact ∧ m.reply) := by
      unfold contact reply
      grind
    have hnone : m.contact = false → m.reply = false → m.transparent = true := by
      unfold transparent
      grind
    unfold readAlike
    cases hq : m.prints
    · simp
    · cases hc : m.contact <;> cases hr : m.reply <;> cases ht : m.transparent <;>
        cases hs : m.sqlLooksThrough <;> cases hj : m.tsLooksThrough <;> simp_all
  · have hq : m.prints = false := by grind
    simp [hp, readAlike, hq]

end ConversationMessage
end Kindred.Inactivity
