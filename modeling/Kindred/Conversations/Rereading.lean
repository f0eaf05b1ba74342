import Mathlib.Data.List.Induction
import Kindred.Conversations.Reactions

/-! A toggle drawn at once is what reading the rows again shows. -/

namespace Kindred.Conversations
open Lib (utf16 utf16_injective)

def place (emoji : String) : ℕ ×ₗ List ℕ := toLex (emojiRank emoji, utf16 emoji)

theorem place_injective : Function.Injective place := fun _ _ h =>
  utf16_injective (congrArg Prod.snd (toLex.injective h))

theorem compareEmoji_le (a b : String) : compareEmoji a b ≤ 0 ↔ place a ≤ place b := by
  unfold compareEmoji place
  rw [Prod.Lex.toLex_le_toLex]
  dsimp only
  split_ifs with hrank hab hba
  · omega
  · have : utf16 a ≤ utf16 b := hab.le
    simp only [this, and_true]
    omega
  · have : ¬utf16 a ≤ utf16 b := not_le.mpr hba
    simp only [this, and_false, or_false]
    omega
  · have : utf16 a ≤ utf16 b := not_lt.mp hba
    simp only [this, and_true]
    omega

def Distinct (l : List MessageReactionSummary) : Prop := l.Pairwise fun a b => a.emoji ≠ b.emoji

def find (l : List MessageReactionSummary) (emoji : String) : Option MessageReactionSummary :=
  l.find? fun r => r.emoji = emoji

variable {l : List MessageReactionSummary} {r : MessageReactionSummary}
  {g : String → Option MessageReactionSummary} {f : MessageReactionSummary → MessageReactionSummary}

variable {emoji : String} {viewer : ReactionViewer} {messageId : Id} {t : Reactions}

theorem find_eq_some (h : Distinct l) : find l emoji = some r ↔ r ∈ l ∧ r.emoji = emoji := by
  unfold find
  induction l with
  | nil => simp
  | cons a l ih =>
    obtain ⟨ha, hl⟩ := List.pairwise_cons.mp h
    by_cases hemoji : a.emoji = emoji
    · have hne : ∀ x ∈ l, x.emoji ≠ emoji := fun x hx => hemoji ▸ (ha x hx).symm
      rw [List.find?_cons_of_pos (by simpa using hemoji)]
      grind
    · rw [List.find?_cons_of_neg (by simpa using hemoji), ih hl]
      grind

/-- A list in display order that has, for each emoji, what `f` says. -/
structure Shows (l : List MessageReactionSummary)
    (f : String → Option MessageReactionSummary) : Prop where
  sorted : l.Pairwise fun a b => place a.emoji < place b.emoji
  find : ∀ emoji, find l emoji = f emoji

theorem Shows.distinct {f : String → Option MessageReactionSummary} (h : Shows l f) : Distinct l :=
  h.sorted.imp fun hab he => by simp [he] at hab

theorem Shows.congr {f : String → Option MessageReactionSummary} (h : Shows l f)
    (hfg : ∀ emoji, f emoji = g emoji) : Shows l g :=
  ⟨h.sorted, fun emoji => (h.find emoji).trans (hfg emoji)⟩

theorem Shows.eq {l' : List MessageReactionSummary} {f : String → Option MessageReactionSummary}
    (h : Shows l f) (h' : Shows l' f) : l = l' := by
  have hnodup {l : List MessageReactionSummary} (h : Distinct l) : l.Nodup :=
    h.imp fun hab he => hab (congrArg _ he)
  have hmem (r : MessageReactionSummary) : r ∈ l ↔ r ∈ l' := by
    have hl : Conversations.find l r.emoji = some r ↔ _ := find_eq_some h.distinct
    have hl' : Conversations.find l' r.emoji = some r ↔ _ := find_eq_some h'.distinct
    rw [h.find] at hl
    rw [h'.find] at hl'
    simpa using hl.symm.trans hl'
  refine List.Perm.eq_of_pairwise (fun a b _ _ hab hba => ?_) h.sorted h'.sorted
    ((List.perm_ext_iff_of_nodup (hnodup h.distinct) (hnodup h'.distinct)).mpr hmem)
  exact (lt_asymm hab hba).elim

theorem ordered_shows (h : Distinct l) : Shows (ordered l) (find l) := by
  have hperm : (ordered l).Perm l := List.perm_insertionSort _ l
  have hdistinct : Distinct (ordered l) := h.perm hperm.symm fun hab => hab.symm
  refine ⟨?_, fun emoji => Option.ext fun r => ?_⟩
  · let r (a b : MessageReactionSummary) : Prop := compareEmoji a.emoji b.emoji ≤ 0
    have : Std.Total r := ⟨fun a b => by simp only [r, compareEmoji_le]; exact le_total _ _⟩
    have : IsTrans _ r := ⟨fun a b c => by simp only [r, compareEmoji_le]; exact le_trans⟩
    refine ((List.pairwise_insertionSort r l).and hdistinct).imp fun {a b} hab => ?_
    have hle := (compareEmoji_le _ _).mp hab.1
    exact lt_of_le_of_ne hle fun he => hab.2 (place_injective he)
  · rw [find_eq_some hdistinct, find_eq_some h, hperm.mem_iff]

theorem find_editEntry (hf : ∀ r, (f r).emoji = r.emoji) (l : List MessageReactionSummary)
    (e : String) :
    find (editEntry emoji f l) e = if e = emoji then (find l e).map f else find l e := by
  unfold find
  induction l with
  | nil => simp [editEntry]
  | cons r l ih =>
    by_cases hr : r.emoji = emoji
    · by_cases he : e = emoji
      · simp [editEntry, hr, he, hf]
      · have hne : ¬emoji = e := Ne.symm he
        simp [editEntry, hr, he, hf, hne]
    · by_cases hre : r.emoji = e
      · have he : ¬e = emoji := fun h => hr (hre.trans h)
        simp [editEntry, hre, he]
      · simp only [editEntry, if_neg hr, List.find?_cons, hre, decide_false]
        exact ih

theorem editEntry_sorted (hf : ∀ r, (f r).emoji = r.emoji)
    (h : l.Pairwise fun a b => place a.emoji < place b.emoji) :
    (editEntry emoji f l).Pairwise fun a b => place a.emoji < place b.emoji := by
  have hmap : (editEntry emoji f l).map (·.emoji) = l.map (·.emoji) := by
    clear h
    induction l with
    | nil => rfl
    | cons r l ih =>
      unfold editEntry
      split_ifs
      · simp [hf]
      · simp [ih]
  have hpair {l : List MessageReactionSummary} :
      (l.map (·.emoji)).Pairwise (fun a b => place a < place b) ↔
        l.Pairwise fun a b => place a.emoji < place b.emoji := List.pairwise_map
  rwa [← hpair, hmap, hpair]

theorem Shows.edit (h : Shows l g) (emoji : String) (hf : ∀ r, (f r).emoji = r.emoji) :
    Shows (editEntry emoji f l) fun e => if e = emoji then (g e).map f else g e :=
  ⟨editEntry_sorted hf h.sorted, fun e => by rw [find_editEntry hf, h.find]⟩

theorem Shows.filter (h : Shows l g) (p : MessageReactionSummary → Bool) :
    Shows (l.filter p) fun e => (g e).filter p := by
  have hdistinct : Distinct (l.filter p) := h.distinct.filter p
  refine ⟨h.sorted.filter p, fun e => Option.ext fun r => ?_⟩
  rw [find_eq_some hdistinct, Option.filter_eq_some_iff, ← h.find, find_eq_some h.distinct,
    List.mem_filter]
  tauto

def ReactionRow.isOf (row : ReactionRow) (messageId : Id) (emoji : String) : Bool :=
  row.messageId = messageId && row.emoji = emoji

def summaryOf (rows : List ReactionRow) (viewer : ReactionViewer) (messageId : Id)
    (emoji : String) : Option MessageReactionSummary :=
  let kind := rows.filter fun r => r.isOf messageId emoji
  if kind = [] then none
  else some {
    emoji
    count := kind.length
    visitor := kind.any fun r => r.actorType = .visitor
    mine := kind.any viewer.gave }

theorem summaryOf_emoji {rows : List ReactionRow}
    (h : summaryOf rows viewer messageId emoji = some r) : r.emoji = emoji := by
  unfold summaryOf at h
  dsimp only at h
  split_ifs at h
  cases h
  rfl

/-- One more row of a kind. -/
def counted (viewer : ReactionViewer) (row : ReactionRow) (entry : Option MessageReactionSummary) :
    MessageReactionSummary :=
  let entry := entry.getD { emoji := row.emoji, count := 0, visitor := false, mine := false }
  { entry with
    count := entry.count + 1
    visitor := row.actorType = .visitor || entry.visitor
    mine := viewer.gave row || entry.mine }

theorem summaryOf_append (rows : List ReactionRow) (row : ReactionRow) (viewer : ReactionViewer)
    (messageId : Id) (emoji : String) : summaryOf (rows ++ [row]) viewer messageId emoji =
      if row.isOf messageId emoji then
        some (counted viewer row (summaryOf rows viewer messageId emoji))
      else summaryOf rows viewer messageId emoji := by
  unfold summaryOf counted
  by_cases h : row.isOf messageId emoji
  · have hemoji : row.emoji = emoji := by
      simpa using (Bool.and_eq_true_iff.mp h).2
    by_cases hkind : rows.filter (fun r => r.isOf messageId emoji) = []
    · simp [List.filter_append, h, hkind, hemoji]
    · simp [List.filter_append, h, hkind, Bool.or_comm]
  · simp [List.filter_append, h]

theorem get_tally (viewer : ReactionViewer)
    (byMessage : Table Id (Table String MessageReactionSummary)) (row : ReactionRow)
    (messageId : Id) (emoji : String) :
    ((tally viewer byMessage row).get messageId).bind (·.get emoji) =
      if row.isOf messageId emoji then
        some (counted viewer row ((byMessage.get messageId).bind (·.get emoji)))
      else (byMessage.get messageId).bind (·.get emoji) := by
  have hnonempty : row.emoji ≠ "" := fun h => by
    have hlength := row.emoji_check.1
    simp [h] at hlength
  unfold tally ReactionRow.isOf
  rw [if_neg hnonempty]
  by_cases hm : row.messageId = messageId
  · subst hm
    rw [Lib.Table.get_put_self, Option.bind_some, Lib.Table.get_put]
    by_cases he : row.emoji = emoji
    · subst he
      cases h : byMessage.get row.messageId with
      | none => simp [counted]
      | some kinds => simp [counted]
    · have hne : ¬emoji = row.emoji := Ne.symm he
      cases h : byMessage.get row.messageId with
      | none => simp [he, hne]
      | some kinds => simp [he, hne]
  · rw [Lib.Table.get_put_ne _ _ (Ne.symm hm)]
    simp [hm]

theorem get_tallied (rows : List ReactionRow) (viewer : ReactionViewer) (messageId : Id)
    (emoji : String) : ((rows.foldl (tally viewer) .empty).get messageId).bind (·.get emoji) =
      summaryOf rows viewer messageId emoji := by
  induction rows using List.reverseRecOn with
  | nil => rfl
  | append_singleton rows row ih =>
    rw [List.foldl_append, List.foldl_cons, List.foldl_nil, get_tally, ih, summaryOf_append]

theorem get_rebuilt {κ α β : Type} [DecidableEq κ] (t : Table κ α) (f : α → β) (k : κ) :
    (t.rows.foldl (fun out r => out.put r.1 (f r.2)) (.empty : Table κ β)).get k =
      (t.get k).map f := by
  suffices h : ∀ (rows : List (κ × α)) (out : Table κ β), (rows.map Prod.fst).Nodup →
      (rows.foldl (fun out r => out.put r.1 (f r.2)) out).get k =
        ((rows.find? fun r => r.1 = k).map fun r => f r.2).or (out.get k) by
    rw [h t.rows _ t.keys_nodup, Lib.Table.get_empty, Option.or_none, Lib.Table.get,
      Option.map_map]
    rfl
  intro rows
  induction rows with
  | nil => intro out _; rfl
  | cons r rows ih =>
    intro out hnodup
    obtain ⟨hr, hrows⟩ := List.nodup_cons.mp hnodup
    rw [List.foldl_cons, ih _ hrows, Lib.Table.get_put]
    by_cases h : r.1 = k
    · have hnone : rows.find? (fun r => r.1 = k) = none := by
        refine List.find?_eq_none.mpr fun x hx hk => hr ?_
        rw [h, ← of_decide_eq_true hk]
        exact List.mem_map_of_mem hx
      simp [h, hnone]
    · have hne : ¬k = r.1 := Ne.symm h
      simp [h, hne]

def readMessageReactions (rows : List ReactionRow) (viewer : ReactionViewer) (messageId : Id) :
    List MessageReactionSummary :=
  ((summarizeReactions rows viewer).get messageId).getD []

theorem readMessageReactions_shows (rows : List ReactionRow) (viewer : ReactionViewer)
    (messageId : Id) :
    Shows (readMessageReactions rows viewer messageId) (summaryOf rows viewer messageId) := by
  unfold readMessageReactions summarizeReactions
  rw [get_rebuilt _ fun kinds : Table String MessageReactionSummary =>
    ordered (kinds.rows.map Prod.snd)]
  have hsummary := get_tallied rows viewer messageId
  generalize (rows.foldl (tally viewer) .empty).get messageId = kinds at hsummary
  cases kinds with
  | none => exact ⟨List.Pairwise.nil, hsummary⟩
  | some kinds =>
    have hkey {r : String × MessageReactionSummary} (hr : r ∈ kinds.rows) : r.2.emoji = r.1 :=
      summaryOf_emoji ((hsummary r.1).symm.trans (Lib.Table.get_eq_some_iff_mem.mpr hr))
    have hdistinct : Distinct (kinds.rows.map Prod.snd) := by
      refine List.pairwise_map.mpr ((List.pairwise_map.mp kinds.keys_nodup).imp_of_mem ?_)
      intro a b ha hb hab
      rwa [hkey ha, hkey hb]
    obtain ⟨hsorted, hfind⟩ := ordered_shows hdistinct
    refine ⟨hsorted, fun emoji => ?_⟩
    rw [← hsummary emoji]
    refine (hfind emoji).trans (Option.ext fun r => ?_)
    rw [find_eq_some hdistinct, Option.bind_some, Lib.Table.get_eq_some_iff_mem, List.mem_map]
    constructor
    · rintro ⟨⟨⟨e, s⟩, hr, rfl⟩, rfl⟩
      rwa [hkey hr]
    · intro hr
      exact ⟨⟨_, hr, rfl⟩, hkey hr⟩

theorem summaryOf_perm {rows rows' : List ReactionRow} (h : rows.Perm rows')
    (viewer : ReactionViewer) (messageId : Id) (emoji : String) :
    summaryOf rows viewer messageId emoji = summaryOf rows' viewer messageId emoji := by
  have hkind := h.filter fun r => r.isOf messageId emoji
  unfold summaryOf
  dsimp only
  rw [hkind.length_eq, hkind.any_eq, hkind.any_eq]
  simp only [← List.length_eq_zero_iff, hkind.length_eq]

section
variable {rows : List ReactionRow} {viewer : ReactionViewer} {messageId : Id} {emoji : Emoji}

@[simp] theorem row_isOf (e : String) :
    (viewer.row messageId emoji).isOf messageId e = true ↔ emoji.text = e := by
  simp only [ReactionRow.isOf, Bool.and_eq_true, decide_eq_true_eq]
  cases viewer <;> simp [ReactionViewer.row]

@[simp] theorem gave_row : viewer.gave (viewer.row messageId emoji) = true := by
  cases viewer <;> simp [ReactionViewer.row, ReactionViewer.gave]

theorem eq_row {row : ReactionRow} (h : row.isOf messageId emoji.text = true)
    (hgave : viewer.gave row = true) : row = viewer.row messageId emoji := by
  obtain ⟨m, e, type, id, _, hactor⟩ := row
  simp only [ReactionRow.isOf, Bool.and_eq_true, decide_eq_true_eq] at h
  cases viewer with
  | visitor =>
    simp only [ReactionViewer.gave, decide_eq_true_eq] at hgave
    obtain ⟨_, hid⟩ | ⟨htype, _⟩ := hactor
    · simp [ReactionViewer.row, h.1, h.2, hgave, hid]
    · simp [hgave] at htype
  | operator userId =>
    simp only [ReactionViewer.gave, Bool.and_eq_true, decide_eq_true_eq] at hgave
    simp [ReactionViewer.row, h.1, h.2, hgave.1, hgave.2]

theorem summaryOf_pos {e : String} (h : summaryOf rows viewer messageId e = some r) :
    0 < r.count := by
  unfold summaryOf at h
  dsimp only at h
  split_ifs at h with hkind
  cases h
  exact List.length_pos_iff.mpr hkind

theorem mine_iff : (summaryOf rows viewer messageId emoji.text).any (·.mine) = true ↔
    viewer.row messageId emoji ∈ rows := by
  unfold summaryOf
  dsimp only
  constructor
  · intro h
    split_ifs at h with hkind
    · cases h
    · rw [Option.any_some] at h
      obtain ⟨row, hrow, hgave⟩ := List.any_eq_true.mp h
      rw [List.mem_filter] at hrow
      exact eq_row hrow.2 hgave ▸ hrow.1
  · intro h
    have hmem : viewer.row messageId emoji ∈ rows.filter fun r => r.isOf messageId emoji.text :=
      List.mem_filter.mpr ⟨h, by simp⟩
    rw [if_neg (List.ne_nil_of_mem hmem), Option.any_some]
    exact List.any_eq_true.mpr ⟨_, hmem, gave_row⟩

theorem counted_row (entry : Option MessageReactionSummary) :
    counted viewer (viewer.row messageId emoji) entry =
      let entry := entry.getD ⟨emoji.text, 0, false, false⟩
      { entry with
        count := entry.count + 1
        visitor := viewer.actorType = .visitor || entry.visitor
        mine := true } := by
  unfold counted
  rw [gave_row]
  cases viewer <;> simp [ReactionViewer.row, ReactionViewer.actorType]

theorem not_mine (hr : summaryOf rows viewer messageId emoji.text = some r)
    (h : viewer.row messageId emoji ∉ rows) : r.mine = false := by
  have hmine := (not_congr mine_iff).mpr h
  rw [hr, Option.any_some] at hmine
  simpa using hmine

theorem visitor_eq_mine (hr : summaryOf rows .visitor messageId emoji.text = some r) :
    r.visitor = r.mine := by
  unfold summaryOf at hr
  dsimp only at hr
  split_ifs at hr
  cases hr
  rfl

end

theorem rows_on {emoji : Emoji} (h : viewer.row messageId emoji ∉ t.rows) :
    (setMessageReaction t viewer messageId emoji true).rows =
      t.rows ++ [viewer.row messageId emoji] := by
  unfold setMessageReaction
  simp [h]

theorem rows_off_perm {emoji : Emoji} (h : viewer.row messageId emoji ∈ t.rows) :
    t.rows.Perm ((setMessageReaction t viewer messageId emoji false).rows ++
      [viewer.row messageId emoji]) := by
  have herase : (setMessageReaction t viewer messageId emoji false).rows =
      t.rows.erase (viewer.row messageId emoji) := by
    rw [t.one_per_actor.erase_eq_filter]
    exact List.filter_congr fun row _ => by simp only [bne, beq_eq_decide, ne_eq, decide_not]
  rw [herase]
  exact (List.perm_cons_erase h).trans (List.perm_append_singleton _ _).symm

theorem not_mem_off (t : Reactions) (viewer : ReactionViewer) (messageId : Id) (emoji : Emoji) :
    viewer.row messageId emoji ∉ (setMessageReaction t viewer messageId emoji false).rows := by
  simp [setMessageReaction]

theorem rows_unchanged {emoji : Emoji} {on : Bool} (h : (viewer.row messageId emoji ∈ t.rows) = on) :
    (setMessageReaction t viewer messageId emoji on).rows = t.rows := by
  unfold setMessageReaction
  cases on with
  | true =>
    have hmem : viewer.row messageId emoji ∈ t.rows := by simpa using h
    simp [hmem]
  | false =>
    have hne : viewer.row messageId emoji ∉ t.rows := by simpa using h
    exact List.filter_eq_self.mpr fun row hrow => decide_eq_true fun he => hne (he ▸ hrow)

section
variable {t : Reactions} {viewer : ReactionViewer} {messageId : Id} {emoji : Emoji}
  {list : Option (List MessageReactionSummary)}

theorem toggle_on (h : Shows (list.getD []) (summaryOf t.rows viewer messageId)) :
    Shows (applyReactionToggle list emoji.text true viewer.actorType)
      (summaryOf (setMessageReaction t viewer messageId emoji true).rows viewer messageId) := by
  have hentry := h.find emoji.text
  have hmark : _ ↔ viewer.row messageId emoji ∈ t.rows := mine_iff
  unfold applyReactionToggle
  simp only [if_true]
  change (list.getD []).find? _ = _ at hentry
  rw [hentry]
  by_cases hrow : viewer.row messageId emoji ∈ t.rows
  · rw [rows_unchanged (by simp [hrow])]
    obtain ⟨entry, hsome, hm⟩ := Option.any_eq_true _ _ |>.mp (hmark.mpr hrow)
    rw [hsome]
    simpa [hm] using h
  · rw [rows_on hrow]
    cases hsome : summaryOf t.rows viewer messageId emoji.text with
    | none =>
      have hnone : ∀ r ∈ list.getD [], r.emoji ≠ emoji.text := by
        have hall := List.find?_eq_none.mp (hentry.trans hsome)
        simpa using hall
      have hdistinct : Distinct (list.getD [] ++ [MessageReactionSummary.mk emoji.text 1
          (viewer.actorType = .visitor) true]) := by
        refine List.pairwise_append.mpr ⟨h.distinct, List.pairwise_singleton _ _, ?_⟩
        intro a ha b hb
        rw [List.mem_singleton.mp hb]
        exact hnone a ha
      refine (ordered_shows hdistinct).congr fun e => ?_
      have hfind := h.find e
      unfold find at hfind ⊢
      rw [List.find?_append, hfind, summaryOf_append]
      by_cases he : emoji.text = e
      · subst he
        simp [hsome, counted_row]
      · simp [he]
    | some entry =>
      have hm := not_mine hsome hrow
      simp only [hm, Bool.false_eq_true, if_false]
      refine (h.edit emoji.text (by intro r; rfl)).congr fun e => ?_
      rw [summaryOf_append]
      by_cases he : emoji.text = e
      · subst he
        cases htype : viewer.actorType <;> simp [hsome, counted_row, htype]
      · simp [he, Ne.symm he]

theorem toggle_off (h : Shows (list.getD []) (summaryOf t.rows viewer messageId)) :
    Shows (applyReactionToggle list emoji.text false viewer.actorType)
      (summaryOf (setMessageReaction t viewer messageId emoji false).rows viewer messageId) := by
  have hentry := h.find emoji.text
  have hmark : _ ↔ viewer.row messageId emoji ∈ t.rows := mine_iff
  unfold applyReactionToggle
  simp only [Bool.false_eq_true, if_false]
  change (list.getD []).find? _ = _ at hentry
  rw [hentry]
  by_cases hrow : viewer.row messageId emoji ∈ t.rows
  · have hbefore (e : String) : summaryOf t.rows viewer messageId e = _ :=
      (summaryOf_perm (rows_off_perm hrow) viewer messageId e).trans (summaryOf_append ..)
    have hgone := not_mem_off t viewer messageId emoji
    generalize (setMessageReaction t viewer messageId emoji false).rows = rows at hbefore hgone ⊢
    obtain ⟨entry, hsome, hm⟩ := Option.any_eq_true _ _ |>.mp (hmark.mpr hrow)
    simp only [hsome, hm, Bool.not_true, Bool.false_eq_true, if_false]
    refine ((h.edit emoji.text (by intro r; rfl)).filter _).congr fun e => ?_
    rw [hbefore e]
    by_cases he : emoji.text = e
    · subst he
      cases hleft : summaryOf rows viewer messageId emoji.text with
      | none => simp [counted_row]
      | some r =>
        have hpos := summaryOf_pos hleft
        have hmine : r.mine = false := not_mine hleft hgone
        have hvisitor : viewer.actorType = .visitor → r.visitor = false := by
          cases viewer with
          | visitor => exact fun _ => (visitor_eq_mine hleft).trans hmine
          | operator userId => exact nofun
        obtain ⟨text, count, visitor, mine⟩ := r
        dsimp only at hpos hmine hvisitor
        by_cases htype : viewer.actorType = .visitor
        · simp [counted_row, htype, hpos, hmine, hvisitor htype]
        · simp [counted_row, htype, hpos, hmine]
    · cases hleft : summaryOf rows viewer messageId e with
      | none => simp [he, Ne.symm he]
      | some r => simp [he, Ne.symm he, summaryOf_pos hleft]
  · rw [rows_unchanged (by simp [hrow])]
    cases hsome : summaryOf t.rows viewer messageId emoji.text with
    | none => exact h
    | some entry => simpa [not_mine hsome hrow] using h

theorem toggle_shows (on : Bool) (h : Shows (list.getD []) (summaryOf t.rows viewer messageId)) :
    Shows (applyReactionToggle list emoji.text on viewer.actorType)
      (summaryOf (setMessageReaction t viewer messageId emoji on).rows viewer messageId) := by
  cases on with
  | true => exact toggle_on h
  | false => exact toggle_off h

end

theorem summaryOf_other (t : Reactions) (viewer : ReactionViewer) (messageId : Id) (emoji : Emoji)
    (on : Bool) {other : Id} (h : other ≠ messageId) (e : String) :
    summaryOf (setMessageReaction t viewer messageId emoji on).rows viewer other e =
      summaryOf t.rows viewer other e := by
  have hnot : (viewer.row messageId emoji).isOf other e = false := by
    have hne : ¬messageId = other := h.symm
    cases viewer <;> simp [ReactionViewer.row, ReactionRow.isOf, hne]
  by_cases hrow : viewer.row messageId emoji ∈ t.rows
  · cases on with
    | true => rw [rows_unchanged (by simp [hrow])]
    | false =>
      rw [summaryOf_perm (rows_off_perm hrow), summaryOf_append, hnot, if_neg Bool.false_ne_true]
  · cases on with
    | true => rw [rows_on hrow, summaryOf_append, hnot, if_neg Bool.false_ne_true]
    | false => rw [rows_unchanged (by simp [hrow])]

theorem rows_twice (t : Reactions) (viewer : ReactionViewer) (messageId : Id) (emoji : Emoji)
    (on : Bool) : let once := setMessageReaction t viewer messageId emoji on
    (setMessageReaction once viewer messageId emoji on).rows = once.rows := by
  refine rows_unchanged (propext ?_)
  cases on with
  | true =>
    by_cases hrow : viewer.row messageId emoji ∈ t.rows
    · rw [rows_unchanged (by simp [hrow])]
      simp [hrow]
    · rw [rows_on hrow]
      simp
  | false => simp [not_mem_off]

/-- In whatever order the rows are read again, they show what the toggle drew,
and nothing else on the other messages; the same toggle once more draws
nothing new. -/
theorem toggle_matches_reread (t : Reactions) (viewer : ReactionViewer) (messageId : Id)
    (emoji : Emoji) (on : Bool) :
    let after := setMessageReaction t viewer messageId emoji on
    let drawn := applyReactionToggle ((summarizeReactions t.rows viewer).get messageId)
      emoji.text on viewer.actorType
    (∀ reread : List ReactionRow, reread.Perm after.rows →
      drawn = readMessageReactions reread viewer messageId ∧
      ∀ other, other ≠ messageId →
        readMessageReactions reread viewer other = readMessageReactions t.rows viewer other) ∧
    applyReactionToggle (some drawn) emoji.text on viewer.actorType = drawn := by
  have honce : Shows (applyReactionToggle _ emoji.text on viewer.actorType) _ :=
    toggle_shows on (readMessageReactions_shows t.rows viewer messageId)
  refine ⟨fun reread hperm => ⟨?_, fun other hother => ?_⟩, ?_⟩
  · exact honce.eq ((readMessageReactions_shows reread viewer messageId).congr
      (summaryOf_perm hperm viewer messageId))
  · exact (readMessageReactions_shows reread viewer other).eq
      ((readMessageReactions_shows t.rows viewer other).congr fun e => by
        rw [summaryOf_perm hperm, summaryOf_other t viewer messageId emoji on hother])
  · have htwice : Shows (applyReactionToggle (some _) emoji.text on viewer.actorType) _ :=
      toggle_shows on honce
    rw [rows_twice] at htwice
    exact htwice.eq honce

end Kindred.Conversations
