import Kindred.Inactivity.IdleCheck

/-!
Whether the team owes an answer: `conversation_idle_check` goes by the newest
stamps of the two sides, the Inbox by the first message that counts in the
order of their texts.
-/

namespace Kindred.Inactivity

def owedBy (d : Doubles) : List NeedsReplyMessage → Option Bool
  | [] => some false
  | m :: ordered => do
    if ← isActionableCustomerTurn d m then return true
    if ← isQualifiedCustomerFacingAnswer d m then return false
    owedBy d ordered

def before (a b : NeedsReplyMessage) : Bool :=
  localeCompare (b.createdAt.getD "") (a.createdAt.getD "") ≤ 0

def newestFirst (messages : List NeedsReplyMessage) : List NeedsReplyMessage :=
  messages.mergeSort before

def computeNeedsReply (d : Doubles) (status : Option String) (messages : List NeedsReplyMessage) :
    Option Bool :=
  if status.getD "" ≠ "open" then some false else owedBy d (newestFirst messages)

theorem localeCompare_le_iff {a b : String} :
    localeCompare a b ≤ 0 ↔ sortKey a.toList ≤ sortKey b.toList := by
  unfold localeCompare
  split
  · rename_i h
    simp [h.le]
  · split <;> rename_i h
    · simp [h]
    · simpa using h

theorem before_iff {a b : ConversationMessage} : before a.read b.read ↔
      sortKey (createdAtText b.createdAt).toList ≤ sortKey (createdAtText a.createdAt).toList := by
  rw [before, decide_eq_true_eq, localeCompare_le_iff]
  rfl

theorem pairwise_newestFirst (messages : List NeedsReplyMessage) :
    (newestFirst messages).Pairwise fun a b => before a b := by
  refine List.pairwise_mergeSort (fun a b c => ?_) (fun a b => ?_) messages
  · simp only [before, decide_eq_true_eq, localeCompare_le_iff]
    exact fun hab hbc => hbc.trans hab
  · simp only [before, Bool.or_eq_true, decide_eq_true_eq, localeCompare_le_iff]
    exact le_total _ _

theorem find_sorted {α : Type} {R : α → α → Prop} {p : α → Bool} {l : List α} {a : α}
    (hl : l.Pairwise R) (h : l.find? p = some a) : ∀ b ∈ l, p b → b = a ∨ R a b := by
  induction l with
  | nil => simp at h
  | cons c l ih =>
    intro b hb hpb
    rw [List.find?_cons] at h
    split at h
    · cases h
      rcases List.mem_cons.mp hb with rfl | hb
      · exact .inl rfl
      · exact .inr (List.rel_of_pairwise_cons hl hb)
    · rename_i hc
      rcases List.mem_cons.mp hb with rfl | hb
      · simp [hpb] at hc
      · exact ih hl.of_cons h b hb hpb

variable {ms : List ConversationMessage}

theorem owedBy_eq (d : Doubles) (h : ∀ m ∈ ms, m.Agrees d) : owedBy d (ms.map (·.read)) =
      some ((ms.find? fun m => m.turn.isSome).any fun m => m.turn = some .visitor) := by
  induction ms with
  | nil => rfl
  | cons m ms ih =>
    obtain ⟨hvisitor, hteam⟩ := h m List.mem_cons_self
    have hrest := ih fun m' hm' => h m' (List.mem_cons_of_mem _ hm')
    rw [List.map_cons, owedBy, hvisitor, hteam, hrest, List.find?_cons]
    rcases ht : m.turn with _ | _ | _ <;> simp [ht]

theorem exists_ordered (ms : List ConversationMessage) :
    ∃ ordered : List ConversationMessage, ordered.Perm ms ∧
      newestFirst (ms.map fun m => m.read) = ordered.map fun m => m.read := by
  have hmap : (ms.mergeSort fun a b => before a.read b.read).map (fun m => m.read) =
      (ms.map fun m => m.read).mergeSort before := List.map_mergeSort fun a _ b _ => Eq.refl _
  exact ⟨_, List.mergeSort_perm _ _, hmap.symm⟩

def Newest (ms : List ConversationMessage) (n : ConversationMessage) : Prop :=
  n ∈ ms ∧ n.turn.isSome ∧ ∀ m ∈ ms, m.turn.isSome → m.createdAt ≤ n.createdAt

/-- No message of the other side comes before all that the newest one's side has. -/
def InTurn (ms : List ConversationMessage) : Prop :=
  ∀ n, Newest ms n → ∀ x ∈ ms, x.turn.isSome → x.turn ≠ n.turn →
    ∃ y ∈ ms, y.turn = n.turn ∧
      localeCompare (createdAtText x.createdAt) (createdAtText y.createdAt) < 0

theorem exists_newest {m : ConversationMessage} (hm : m ∈ ms) (ht : m.turn.isSome) :
    ∃ n, Newest ms n := by
  let times := (ms.filter fun m => m.turn.isSome).map (·.createdAt)
  have hmem : m.createdAt ∈ times := List.mem_map_of_mem (List.mem_filter.mpr ⟨hm, ht⟩)
  obtain ⟨t, hmax⟩ := Option.isSome_iff_exists.mp (List.isSome_max?_of_mem hmem)
  obtain ⟨hin, hle⟩ := List.max?_eq_some_iff.mp hmax
  obtain ⟨n, hn, rfl⟩ := List.mem_map.mp hin
  obtain ⟨hn, hturn⟩ := List.mem_filter.mp hn
  exact ⟨n, hn, hturn, fun x hx hxt => hle _ (List.mem_map_of_mem (List.mem_filter.mpr ⟨hx, hxt⟩))⟩

theorem Newest.unique (hdistinct : (ms.map (·.createdAt)).Nodup) {n n' : ConversationMessage}
    (h : Newest ms n) (h' : Newest ms n') : n = n' := by
  have htime : n.createdAt = n'.createdAt :=
    le_antisymm (h'.2.2 n h.1 h.2.1) (h.2.2 n' h'.1 h'.2.1)
  exact List.inj_on_of_nodup_map hdistinct h.1 h'.1 htime

/-- TypeScript answers with the newest one's side when that side comes first. -/
theorem owedBy_iff {d : Doubles} (hdistinct : (ms.map (·.createdAt)).Nodup)
    (hagrees : ∀ m ∈ ms, m.Agrees d) {owed : Bool}
    (howed : owed ↔ ∃ n, Newest ms n ∧ n.turn = some .visitor) :
    owedBy d (newestFirst (ms.map (·.read))) = some owed ↔ InTurn ms := by
  obtain ⟨ordered, hperm, hordered⟩ := exists_ordered ms
  have hsorted : ordered.Pairwise fun a b => before a.read b.read := by
    have h := pairwise_newestFirst (ms.map (·.read))
    rw [hordered] at h
    exact List.pairwise_map.mp h
  rw [hordered, owedBy_eq d fun m hm => hagrees m (hperm.mem_iff.mp hm), Option.some.injEq]
  cases hf : ordered.find? fun m => m.turn.isSome with
  | none =>
    have hnone (m : ConversationMessage) (hm : m ∈ ms) : ¬ m.turn.isSome := by
      simpa using List.find?_eq_none.mp hf m (hperm.mem_iff.mpr hm)
    have hfalse : owed = false := by
      refine Bool.eq_false_iff.mpr fun h => ?_
      obtain ⟨n, hn, -⟩ := howed.mp h
      exact hnone n hn.1 hn.2.1
    rw [hfalse]
    exact iff_of_true rfl fun n hn => absurd hn.2.1 (hnone n hn.1)
  | some f =>
    have hfm : f ∈ ms := hperm.mem_iff.mp (List.mem_of_find?_eq_some hf)
    have hft : f.turn.isSome := by simpa using List.find?_some hf
    have hfirst (x : ConversationMessage) (hx : x ∈ ms) (hxt : x.turn.isSome) :
        sortKey (createdAtText x.createdAt).toList ≤ sortKey (createdAtText f.createdAt).toList := by
      rcases find_sorted hsorted hf x (hperm.mem_iff.mpr hx) hxt with rfl | h
      · exact le_rfl
      · exact before_iff.mp h
    obtain ⟨n, hn⟩ := exists_newest hfm hft
    have hside : owed = decide (n.turn = some .visitor) := by
      refine Bool.eq_iff_iff.mpr ?_
      rw [howed, decide_eq_true_eq]
      refine ⟨fun ⟨n', hn', hv⟩ => ?_, fun hv => ⟨n, hn, hv⟩⟩
      rwa [hn.unique hdistinct hn']
    have hsame : (Option.any (fun m : ConversationMessage => m.turn = some .visitor) (some f) = owed)
        ↔ f.turn = n.turn := by
      rw [hside]
      have := hn.2.1
      rcases hf' : f.turn with _ | _ | _ <;> rcases hn' : n.turn with _ | _ | _ <;> simp_all
    rw [hsame]
    constructor
    · intro heq n' hn' x hx hxt hne
      rw [← hn.unique hdistinct hn'] at hne ⊢
      refine ⟨f, hfm, heq, ?_⟩
      rw [localeCompare_neg_iff]
      refine lt_of_le_of_ne (hfirst x hx hxt) fun hkey => ?_
      have htime : x.createdAt = f.createdAt := createdAtText_injective (by
        unfold localeCompare
        simp [hkey])
      exact hne (by rw [List.inj_on_of_nodup_map hdistinct hx hfm htime, heq])
    · intro hturn
      by_contra hne
      obtain ⟨y, hy, hyt, hlt⟩ := hturn n hn f hfm hft hne
      have hle := hfirst y hy (hyt ▸ hn.2.1)
      exact absurd hle (not_le.mpr (localeCompare_neg_iff.mp hlt))

theorem replyOwed_newest {db : Db} {id : Id} {c : Conversation} (hcalls : calls db id = [])
    (hms : ms.Perm (db.messages.filter fun m => m.conversationId = id))
    (hdistinct : (ms.map fun m => m.createdAt).Nodup) (hopen : c.status = some .opened) :
    replyOwed db id c ↔ ∃ n, Newest ms n ∧ n.turn = some .visitor := by
  have hmem (m : ConversationMessage) : m ∈ ms ↔ m ∈ db.messages ∧ m.conversationId = id := by
    simp [hms.mem_iff]
  rw [replyOwed_iff, hcalls]
  constructor
  · rintro ⟨-, v, hv, hid, hturn, hteam, -⟩
    obtain ⟨n, hn⟩ := exists_newest ((hmem v).mpr ⟨hv, hid⟩) (hturn ▸ rfl)
    refine ⟨n, hn, ?_⟩
    obtain ⟨hnm, hnt, hle⟩ := hn
    rcases hside : n.turn with _ | _ | _
    · simp [hside] at hnt
    · rfl
    · have hnv := hteam n ((hmem n).mp hnm).1 ((hmem n).mp hnm).2 hside
      have hvn := hle v ((hmem v).mpr ⟨hv, hid⟩) (hturn ▸ rfl)
      have heq := List.inj_on_of_nodup_map hdistinct hnm ((hmem v).mpr ⟨hv, hid⟩)
        (le_antisymm hnv hvn)
      rw [← hside, heq, hturn]
  · rintro ⟨n, ⟨hnm, hnt, hle⟩, hturn⟩
    obtain ⟨hn, hid⟩ := (hmem n).mp hnm
    exact ⟨hopen, n, hn, hid, hturn,
      fun m hm hmid ht => hle m ((hmem m).mpr ⟨hm, hmid⟩) (ht ▸ rfl), by simp⟩

theorem inTurn_iff (hdistinct : (ms.map fun m => m.createdAt).Nodup)
    (hyears : ∀ m ∈ ms, FourDigitYear m.createdAt) :
    InTurn ms ↔ ¬ ∃ n x, Newest ms n ∧ x ∈ ms ∧ x.turn.isSome ∧ x.turn ≠ n.turn ∧
      n.createdAt % Lib.Calendar.second ≠ 0 ∧
      x.createdAt = n.createdAt - n.createdAt % Lib.Calendar.second := by
  constructor
  · rintro h ⟨n, x, hn, hx, hxt, hne, hoff, hat⟩
    obtain ⟨y, hy, hyt, hlt⟩ := h n hn x hx hxt hne
    rw [localeCompare_text (hyears x hx) (hyears y hy)] at hlt
    exact not_asSorted_lt hat (hn.2.2 y hy (hyt ▸ hn.2.1)) hlt
  · intro h n hn x hx hxt hne
    refine ⟨n, hn.1, rfl, ?_⟩
    rw [localeCompare_text (hyears x hx) (hyears n hn.1)]
    have hxn : x.createdAt ≠ n.createdAt := fun htime =>
      hne (by rw [List.inj_on_of_nodup_map hdistinct hx hn.1 htime])
    exact asSorted_lt (lt_of_le_of_ne (hn.2.2 x hx hxt) hxn)
      fun ⟨hoff, hat⟩ => h ⟨n, x, hn, hx, hxt, hne, hoff, hat⟩

/-- SQL and TypeScript go by one rule: exactly for messages whose markers both read alike, and in
an open conversation only when no message of the other side sorts before all of the newest one's
side. -/
theorem turns_agree (d : Doubles) :
    (∀ m : ConversationMessage, m.Agrees d ↔ m.readAlike) ∧
    ∀ (db : Db) (id : Id) (c : Conversation) (ms : List ConversationMessage), calls db id = [] →
      ms.Perm (db.messages.filter fun m => m.conversationId = id) →
      (ms.map fun m => m.createdAt).Nodup →
      (((∀ m ∈ ms, m.Agrees d) ∧ computeNeedsReply d (c.status.map (·.text))
          (ms.map fun m => m.read) = some (replyOwed db id c)) ↔
        (∀ m ∈ ms, m.readAlike) ∧ (c.status = some .opened → InTurn ms)) ∧
      ((∀ m ∈ ms, FourDigitYear m.createdAt) →
        (InTurn ms ↔ ¬ ∃ n x, Newest ms n ∧ x ∈ ms ∧ x.turn.isSome ∧ x.turn ≠ n.turn ∧
          n.createdAt % Lib.Calendar.second ≠ 0 ∧
          x.createdAt = n.createdAt - n.createdAt % Lib.Calendar.second)) := by
  have hrows (m : ConversationMessage) : m.Agrees d ↔ m.readAlike :=
    ConversationMessage.agrees_iff d m
  refine ⟨hrows, fun db id c ms hcalls hms hdistinct => ⟨?_, inTurn_iff hdistinct⟩⟩
  simp only [hrows]
  refine and_congr_right fun halike => ?_
  have hagrees : ∀ m ∈ ms, m.Agrees d := fun m hm => (hrows m).mpr (halike m hm)
  by_cases hopen : c.status = some .opened
  · have hside := owedBy_iff hdistinct hagrees (replyOwed_newest hcalls hms hdistinct hopen)
    have hstatus : (c.status.map (·.text)).getD "" = "open" := by
      rw [hopen]
      rfl
    rw [computeNeedsReply, if_neg (by rw [hstatus]; simp), hside]
    simp [hopen]
  · have hstatus : (c.status.map (·.text)).getD "" ≠ "open" := by
      rcases hs : c.status with _ | _ | _ | _ | _ <;> simp_all [ConversationStatus.text]
    have hnot : replyOwed db id c = false := by
      unfold replyOwed
      simp [hopen]
    rw [computeNeedsReply, if_pos hstatus, hnot]
    simp [hopen]

/-- Numbers printed down to the point. -/
def Doubles.whole : Doubles where
  text m s :=
    let n := m.natAbs / 10 ^ s
    .ofList ((if m < 0 then ['-'] else []) ++ fixed (Nat.toDigits 10 n).length n)
  numeral m s := by
    simp only [String.toList_ofList]
    split
    · exact ⟨'-', _, rfl, by decide⟩
    · rw [List.nil_append]
      generalize m.natAbs / 10 ^ s = n
      have hlen : 0 < (Nat.toDigits 10 n).length := Nat.length_toDigits_pos
      cases h : fixed (Nat.toDigits 10 n).length n with
      | nil =>
        have := length_fixed (Nat.toDigits 10 n).length n
        simp [h] at this
        omega
      | cons c cs =>
        obtain ⟨k, hk, rfl⟩ := fixed_digits _ n c (h ▸ List.mem_cons_self)
        exact ⟨_, _, rfl, by interval_cases k <;> decide⟩

/-- A message that carries `channel_menu_event` as an array of one `true`: a menu tap to the Inbox,
the visitor's turn to the inactivity close. -/
def tapInArray : ConversationMessage where
  conversationId := 0
  senderType := some "contact"
  body := some "hi"
  metadata := some (.object [("channel_menu_event", .array [.bool true])])
  createdAt := 1767225600500000

theorem tapInArray_differs :
    tapInArray.turn = some .visitor ∧
      isActionableCustomerTurn .whole tapInArray.read = some false ∧
      ¬ ∀ (d : Doubles) (m : ConversationMessage), m.Agrees d := by
  refine ⟨by decide, by decide, fun h => ?_⟩
  have hagrees := (ConversationMessage.agrees_iff .whole tapInArray).mp (h .whole tapInArray)
  exact absurd hagrees (by decide)

def answered : List ConversationMessage :=
  [{ conversationId := 0, senderType := some "contact", body := some "hi", createdAt := 0 },
    { conversationId := 0, senderType := some "ai", body := some "hello", createdAt := 1500000 }]

theorem turns_agree_answered :
    (((∀ m ∈ answered, m.Agrees .whole) ∧ computeNeedsReply .whole (some "open")
        (answered.map fun m => m.read) =
          some (replyOwed { messages := answered } 0 ⟨7, some .opened, false, none, none, 0, 0⟩)) ↔
      (∀ m ∈ answered, m.readAlike) ∧ (some ConversationStatus.opened = some .opened →
        InTurn answered)) :=
  ((turns_agree .whole).2 { messages := answered } 0 ⟨7, some .opened, false, none, none, 0, 0⟩
    answered rfl (List.Perm.of_eq rfl) (by decide)).1

end Kindred.Inactivity
