import Kindred.Billing.Statements
import Kindred.Billing.CardSync

/-! The card a workspace saved: its states, and the account that names it. -/

namespace Kindred.Billing
open Lib (Table run)
open Lib.Tx

/-- A call about billing, a touch by one of the triggers, or the record of a sync. -/
inductive CardCall where
  | billing (op : Operation)
  | touch (due : Card → Bool)
  | markSynced (cardId : Id) (version : Int) (mirror : List (MirrorColumn × Option String))
      (error : Option String)

def CardDb.billing (d : CardDb) (now : Timestamp) (op : Operation) : CardDb :=
  let db := d.db.step (now, op)
  { d with
    db
    sync := db.cards.rows.foldl (fun sync r =>
      if (sync.get r.1).isSome then sync else sync.put r.1 { nextSyncAt := now }) d.sync }

def CardDb.call (d : CardDb) (c : Timestamp × CardCall) : CardDb :=
  match c.2 with
  | .billing op => d.billing c.1 op
  | .touch due => d.touch c.1 due
  | .markSynced cardId version mirror error =>
    match d.markSynced c.1 cardId version mirror error with
    | none => d
    | some (_, d') => d'

structure Account.Names (a : Account) (c : Card) : Prop where
  provider : a.cardProvider = some c.provider
  subscriptionId : a.cardSubscriptionId = some c.subscriptionId

def Db.NamesLive (db : Db) (ws : Id) (acc : Account) : Prop :=
  ∃ id card, db.cards.get id = some card ∧ card.workspaceId = ws ∧ card.status.live ∧
    acc.Names card

def Db.OneLive (db : Db) : Prop :=
  ∀ id id' card card', db.cards.get id = some card → db.cards.get id' = some card' →
    card.workspaceId = card'.workspaceId → card.status.live → card'.status.live → id = id'

structure CardsKept (db : Db) : Prop where
  old : ∀ id card, db.cards.get id = some card → id < db.nextId
  unique : ∀ id id' card card', db.cards.get id = some card → db.cards.get id' = some card' →
    card.provider = card'.provider → card.subscriptionId = card'.subscriptionId → id = id'
  live : db.OneLive
  named : ∀ id card, db.cards.get id = some card → card.status.live →
    ∃ acc, db.accounts.get card.workspaceId = some acc ∧ acc.Names card
  names : ∀ ws acc, db.accounts.get ws = some acc →
    (acc.cardProvider.isSome ∨ acc.cardSubscriptionId.isSome) → db.NamesLive ws acc

def Db.RenewsByCard (db : Db) (ws : Id) : Prop :=
  ∀ acc, db.accounts.get ws = some acc → acc.autoRenew → db.NamesLive ws acc

structure Card.Follows (c c' : Card) : Prop where
  workspaceId : c'.workspaceId = c.workspaceId
  canceled : c.status = .canceled → c'.status = .canceled
  live : c'.status.live → c.status.live

variable {now : Timestamp} {may : Right → Prop} {ws : Id} {db db' : Db} {id : Id} {acc : Account}
  {d : CardDb}

theorem Card.Follows.refl (c : Card) : c.Follows c := ⟨rfl, id, id⟩

variable {c card : Card}

theorem Card.Follows.trans {a b : Card} (hab : a.Follows b) (hbc : b.Follows c) : a.Follows c :=
  ⟨hbc.workspaceId.trans hab.workspaceId, fun h => hbc.canceled (hab.canceled h),
    fun h => hab.live (hbc.live h)⟩

theorem Card.Moves.follows {c' : Card} (h : c.Moves c') : c.Follows c' := by
  refine ⟨h.workspaceId, fun hc => absurd hc h.canceled, fun hlive => ?_⟩
  have hcanceling := h.canceling
  have hcanceled := h.canceled
  cases hs : c.status with
  | active | pastDue => rfl
  | canceling =>
    rw [hcanceling hs] at hlive
    exact absurd hlive (by decide)
  | canceled => exact absurd hs hcanceled

theorem live_ended (s : CardStatus) : s.ended = !s.live := by
  cases s <;> rfl

theorem cardsKept_empty : CardsKept .empty := by
  have hcards : ∀ id card, Db.empty.cards.get id ≠ some card := by simp [Db.empty]
  have haccounts : ∀ ws acc, Db.empty.accounts.get ws ≠ some acc := by simp [Db.empty]
  exact ⟨fun id card h => absurd h (hcards id card), fun id _ card _ h => absurd h (hcards id card),
    fun id _ card _ h => absurd h (hcards id card), fun id card h => absurd h (hcards id card),
    fun ws acc h => absurd h (haccounts ws acc)⟩

theorem renewsByCard_empty (ws : Id) : Db.empty.RenewsByCard ws := by
  intro acc hacc
  simp [Db.empty] at hacc

theorem liveCard_none (h : db.liveCard ws = none) (hcard : db.cards.get id = some card)
    (hws : card.workspaceId = ws) : ¬card.status.live := by
  intro hlive
  have := List.find?_eq_none.mp h (id, card) (Table.get_eq_some_iff_mem.mp hcard)
  simp [hws, hlive] at this

theorem findCard_none {provider subscriptionId : String}
    (h : db.findCard provider subscriptionId = none) (hcard : db.cards.get id = some card)
    (hprovider : card.provider = provider) : card.subscriptionId ≠ subscriptionId := by
  intro hsubscription
  have := List.find?_eq_none.mp h (id, card) (Table.get_eq_some_iff_mem.mp hcard)
  simp [hprovider, hsubscription] at this

theorem CardsKept.frame (h : CardsKept db) (hcards : db'.cards = db.cards)
    (hid : db.nextId ≤ db'.nextId)
    (hkept : ∀ ws acc, db.accounts.get ws = some acc → ∃ acc', db'.accounts.get ws = some acc' ∧
      acc'.cardProvider = acc.cardProvider ∧ acc'.cardSubscriptionId = acc.cardSubscriptionId)
    (hback : ∀ ws acc', db'.accounts.get ws = some acc' →
      (acc'.cardProvider.isSome ∨ acc'.cardSubscriptionId.isSome) →
      ∃ acc, db.accounts.get ws = some acc ∧ acc'.cardProvider = acc.cardProvider ∧
        acc'.cardSubscriptionId = acc.cardSubscriptionId) : CardsKept db' := by
  obtain ⟨hold, hunique, hlive, hnamed, hnames⟩ := h
  rw [← hcards] at hold hunique hnamed
  refine ⟨fun id card hc => (hold id card hc).trans_le hid, hunique, ?_, fun id card hc hl => ?_,
    fun ws acc' hacc hsome => ?_⟩
  · unfold Db.OneLive
    rw [hcards]
    exact hlive
  · obtain ⟨acc, hacc, hprovider, hsubscription⟩ := hnamed id card hc hl
    obtain ⟨acc', hacc', hp, hs⟩ := hkept _ acc hacc
    exact ⟨acc', hacc', hp.trans hprovider, hs.trans hsubscription⟩
  · obtain ⟨acc, hold', hp, hs⟩ := hback ws acc' hacc hsome
    obtain ⟨id, card, hc, hws, hl, hprovider, hsubscription⟩ :=
      hnames ws acc hold' (by rwa [hp, hs] at hsome)
    exact ⟨id, card, hcards ▸ hc, hws, hl, hp.trans hprovider, hs.trans hsubscription⟩

theorem CardsKept.account (h : CardsKept db) {acc' : Account} (hacc : db.accounts.get ws = some acc)
    (hp : acc'.cardProvider = acc.cardProvider)
    (hs : acc'.cardSubscriptionId = acc.cardSubscriptionId) :
    CardsKept { db with accounts := db.accounts.put ws acc' } := by
  refine h.frame rfl le_rfl (fun ws' a ha => ?_) fun ws' a' ha' _ => ?_
  · by_cases hws : ws' = ws
    · cases hacc.symm.trans (hws ▸ ha)
      exact ⟨acc', by simp [hws], hp, hs⟩
    · exact ⟨a, by simpa [Table.get_put_ne _ _ hws] using ha, rfl, rfl⟩
  · by_cases hws : ws' = ws
    · simp only [hws, Table.get_put_self, Option.some.injEq] at ha'
      exact ⟨acc, hws ▸ hacc, ha' ▸ hp, ha' ▸ hs⟩
    · exact ⟨a', by simpa [Table.get_put_ne _ _ hws] using ha', rfl, rfl⟩

theorem CardsKept.insert (h : CardsKept db)
    (hnew : db.findCard card.provider card.subscriptionId = none) :
    (∀ id c, (db.cards.put db.nextId card).get id = some c → id < db.nextId + 1) ∧
      ∀ id id' c c', (db.cards.put db.nextId card).get id = some c →
        (db.cards.put db.nextId card).get id' = some c' →
        c.provider = c'.provider → c.subscriptionId = c'.subscriptionId → id = id' := by
  refine ⟨fun id c hc => ?_, fun id id' c c' hc hc' hp hs => ?_⟩
  · rw [Table.get_put] at hc
    split at hc
    · rename_i hid
      exact hid ▸ Nat.lt_succ_self _
    · exact (h.old id c hc).trans (Nat.lt_succ_self _)
  · rw [Table.get_put] at hc hc'
    split at hc <;> split at hc'
    · rename_i hid hid'
      exact hid.trans hid'.symm
    · cases hc
      exact absurd hs.symm (findCard_none hnew hc' hp.symm)
    · cases hc'
      exact absurd hs (findCard_none hnew hc hp)
    · exact h.unique id id' c c' hc hc' hp hs

theorem CardsKept.duplicate (h : CardsKept db) (hstatus : card.status = .canceling)
    (hnew : db.findCard card.provider card.subscriptionId = none) :
    CardsKept { db.drawn with cards := db.cards.put db.nextId card } := by
  have hlive : ∀ {id c}, (db.cards.put db.nextId card).get id = some c → c.status.live →
      db.cards.get id = some c := by
    intro id c hc hl
    rw [Table.get_put] at hc
    split at hc
    · cases hc
      rw [hstatus] at hl
      exact absurd hl (by decide)
    · exact hc
  obtain ⟨hold, hunique⟩ := h.insert hnew
  refine ⟨hold, hunique, fun id id' c c' hc hc' hws hl hl' => ?_, fun id c hc hl => ?_,
    fun ws acc hacc hsome => ?_⟩
  · exact h.live id id' c c' (hlive hc hl) (hlive hc' hl') hws hl hl'
  · exact h.named id c (hlive hc hl) hl
  · obtain ⟨id, c, hc, hrest⟩ := h.names ws acc hacc hsome
    refine ⟨id, c, ?_, hrest⟩
    have hne : id ≠ db.nextId := (h.old id c hc).ne
    simpa [Table.get_put_ne _ _ hne] using hc

theorem CardsKept.save (h : CardsKept db) {acc : Account} (hstatus : card.status = .active)
    (hnew : db.findCard card.provider card.subscriptionId = none)
    (hfree : db.liveCard card.workspaceId = none) : CardsKept { db.drawn with
      cards := db.cards.put db.nextId card
      accounts := db.accounts.put card.workspaceId (acc.withCard card) } := by
  have hactive : card.status.live := by rw [hstatus]; rfl
  obtain ⟨hold, hunique⟩ := h.insert hnew
  refine ⟨hold, hunique, fun id id' c c' hc hc' hws hl hl' => ?_, fun id c hc hl => ?_,
    fun ws a ha hsome => ?_⟩
  · simp only [Table.get_put] at hc hc'
    split at hc <;> split at hc'
    · rename_i hid hid'
      exact hid.trans hid'.symm
    · cases hc
      exact absurd hl' (liveCard_none hfree hc' hws.symm)
    · cases hc'
      exact absurd hl (liveCard_none hfree hc hws)
    · exact h.live id id' c c' hc hc' hws hl hl'
  · simp only [Table.get_put] at hc
    split at hc
    · cases hc
      exact ⟨_, Table.get_put_self _ _ _, rfl, rfl⟩
    · have hws : c.workspaceId ≠ card.workspaceId := fun hws => liveCard_none hfree hc hws hl
      obtain ⟨a, ha, hnames⟩ := h.named id c hc hl
      exact ⟨a, by simpa [Table.get_put_ne _ _ hws] using ha, hnames⟩
  · by_cases hws : ws = card.workspaceId
    · simp only [hws, Table.get_put_self, Option.some.injEq] at ha
      exact ⟨db.nextId, card, Table.get_put_self _ _ _, hws.symm, hactive, ha ▸ ⟨rfl, rfl⟩⟩
    · simp only [Table.get_put_ne _ _ hws] at ha
      obtain ⟨id, c, hc, hrest⟩ := h.names ws a ha hsome
      refine ⟨id, c, ?_, hrest⟩
      have hne : id ≠ db.nextId := (h.old id c hc).ne
      simpa [Table.get_put_ne _ _ hne] using hc

theorem dropCard_names (h : acc.Names card) :
    (acc.dropCard card).cardProvider = none ∧ (acc.dropCard card).cardSubscriptionId = none ∧
      (acc.dropCard card).autoRenew = false := by
  rw [Account.dropCard, if_pos ⟨h.provider, h.subscriptionId⟩]
  exact ⟨rfl, rfl, rfl⟩

theorem dropCard_other (h : ¬acc.Names card) : acc.dropCard card = acc := by
  rw [Account.dropCard, if_neg fun hn => h ⟨hn.1, hn.2⟩]

section Moved
variable {cardId : Id} {card card' : Card}

theorem moved_old (hcard : db.cards.get cardId = some card) (hmove : card.Moves card') (id : Id)
    (c : Card) (hc : (db.cards.put cardId card').get id = some c) : ∃ old, db.cards.get id = some old ∧ c.workspaceId = old.workspaceId ∧
      c.provider = old.provider ∧ c.subscriptionId = old.subscriptionId ∧
      (c.status.live → old.status.live) := by
  rw [Table.get_put] at hc
  split at hc
  · rename_i hid
    cases hc
    exact ⟨card, hid ▸ hcard, hmove.workspaceId, hmove.provider, hmove.subscriptionId,
      hmove.follows.live⟩
  · exact ⟨c, hc, rfl, rfl, rfl, fun hl => hl⟩

theorem CardsKept.names_unique (h : CardsKept db) (hcard : db.cards.get cardId = some card)
    (hc : db.cards.get id = some c) (hnames : acc.Names c) (hnames' : acc.Names card) :
    id = cardId :=
  h.unique id cardId c card hc hcard
    (Option.some.inj (hnames.provider.symm.trans hnames'.provider))
    (Option.some.inj (hnames.subscriptionId.symm.trans hnames'.subscriptionId))

theorem get_dropped (accounts : Table Id Account) (card : Card) (ws : Id) :
    (accounts.update card.workspaceId (·.dropCard card)).get ws =
      if ws = card.workspaceId then (accounts.get ws).map (·.dropCard card) else accounts.get ws := by
  rw [Table.get_update]
  split
  · rename_i hws
    rw [hws]
  · rfl

theorem dropped_account {accounts : Table Id Account}
    (hacc : (accounts.update card.workspaceId (·.dropCard card)).get ws = some acc) :
    acc.cardProvider = none ∧ acc.cardSubscriptionId = none ∧ acc.autoRenew = false ∨
      accounts.get ws = some acc ∧ (ws = card.workspaceId → ¬acc.Names card) := by
  rw [get_dropped] at hacc
  split at hacc
  · obtain ⟨a, ha, hdrop⟩ := Option.map_eq_some_iff.mp hacc
    by_cases hnames : a.Names card
    · rw [← hdrop]
      exact .inl (dropCard_names hnames)
    · rw [dropCard_other hnames] at hdrop
      exact .inr ⟨hdrop ▸ ha, fun _ => hdrop ▸ hnames⟩
  · rename_i hws
    exact .inr ⟨hacc, fun hws' => absurd hws' hws⟩

theorem Db.NamesLive.moved (h : db.NamesLive ws acc) (hcard : db.cards.get cardId = some card)
    (hmove : card.Moves card')
    (hstill : card'.status.live ∨ (ws = card.workspaceId → ¬acc.Names card)) :
    Db.NamesLive { db with cards := db.cards.put cardId card' } ws acc := by
  obtain ⟨id, c, hc, hws, hl, hnames⟩ := h
  by_cases hid : id = cardId
  · cases hcard.symm.trans (hid ▸ hc)
    rcases hstill with hlive | hnot
    · refine ⟨cardId, card', Table.get_put_self _ _ _, hmove.workspaceId.trans hws, hlive, ?_, ?_⟩
      · rw [hmove.provider, hnames.provider]
      · rw [hmove.subscriptionId, hnames.subscriptionId]
    · exact absurd hnames (hnot hws.symm)
  · exact ⟨id, c, by simpa [Table.get_put_ne _ _ hid] using hc, hws, hl, hnames⟩

theorem CardsKept.moved (h : CardsKept db) (hcard : db.cards.get cardId = some card)
    (hmove : card.Moves card') :
    (∀ id c, (db.cards.put cardId card').get id = some c → id < db.nextId) ∧
    ∀ id id' c c', (db.cards.put cardId card').get id = some c →
      (db.cards.put cardId card').get id' = some c' →
      c.provider = c'.provider → c.subscriptionId = c'.subscriptionId → id = id' := by
  have hold := moved_old hcard hmove
  refine ⟨fun id c hc => ?_, fun id id' c c' hc hc' hp hs => ?_⟩
  · obtain ⟨o, ho, -⟩ := hold id _ hc
    exact h.old id o ho
  · obtain ⟨o, ho, -, hop, hos, -⟩ := hold id _ hc
    obtain ⟨o', ho', -, hop', hos', -⟩ := hold id' _ hc'
    exact h.unique id id' o o' ho ho' (hop.symm.trans (hp.trans hop')) (hos.symm.trans (hs.trans hos'))

theorem CardsKept.stay (h : CardsKept db) (hcard : db.cards.get cardId = some card)
    (hmove : card.Moves card') (hlive : card'.status.live) :
    CardsKept { db with cards := db.cards.put cardId card' } := by
  have hold := moved_old hcard hmove
  obtain ⟨hids, hunique⟩ := h.moved hcard hmove
  refine ⟨hids, hunique, fun id id' c c' hc hc' hws hl hl' => ?_, fun id c hc hl => ?_,
    fun ws acc hacc hsome => ?_⟩
  · obtain ⟨o, ho, how, -, -, hol⟩ := hold id _ hc
    obtain ⟨o', ho', how', -, -, hol'⟩ := hold id' _ hc'
    exact h.live id id' o o' ho ho' (how.symm.trans (hws.trans how')) (hol hl) (hol' hl')
  · obtain ⟨o, ho, how, hop, hos, hol⟩ := hold id _ hc
    obtain ⟨acc, hacc, hprovider, hsubscription⟩ := h.named id o ho (hol hl)
    exact ⟨acc, how ▸ hacc, hop ▸ hprovider, hos ▸ hsubscription⟩
  · exact (h.names ws acc hacc hsome).moved hcard hmove (.inl hlive)

theorem CardsKept.drop (h : CardsKept db) (hcard : db.cards.get cardId = some card)
    (hmove : card.Moves card') (hended : ¬card'.status.live) : CardsKept { db with
      cards := db.cards.put cardId card'
      accounts := db.accounts.update card.workspaceId (·.dropCard card) } := by
  have hother : ∀ {id c}, (db.cards.put cardId card').get id = some c → c.status.live →
      id ≠ cardId ∧ db.cards.get id = some c := by
    intro id c hc hl
    rw [Table.get_put] at hc
    split at hc
    · cases hc
      exact absurd hl hended
    · rename_i hid
      exact ⟨hid, hc⟩
  obtain ⟨hids, hunique⟩ := h.moved hcard hmove
  refine ⟨hids, hunique, fun id id' c c' hc hc' hws hl hl' => ?_, fun id c hc hl => ?_,
    fun ws acc hacc hsome => ?_⟩
  · exact h.live id id' c c' (hother hc hl).2 (hother hc' hl').2 hws hl hl'
  · obtain ⟨hid, hc⟩ := hother hc hl
    obtain ⟨acc, hacc, hnames⟩ := h.named id c hc hl
    refine ⟨acc, ?_, hnames⟩
    simp only [get_dropped]
    split
    · rw [hacc, Option.map_some,
        dropCard_other fun hnames' => hid (h.names_unique hcard hc hnames hnames')]
    · exact hacc
  · rcases dropped_account hacc with ⟨hp, hs, -⟩ | ⟨hold', hnot⟩
    · simp [hp, hs] at hsome
    · exact (h.names ws acc hold' hsome).moved hcard hmove (.inr hnot)

end Moved

theorem CardsKept.write (h : CardsKept db) (hw : Statement may db db') : CardsKept db' := by
  have hsame : ∀ {db₁ : Db}, db₁.cards = db.cards → db₁.accounts = db.accounts →
      db.nextId ≤ db₁.nextId → CardsKept db₁ := fun hcards haccounts hid =>
    h.frame hcards hid (fun ws acc hacc => ⟨acc, haccounts ▸ hacc, rfl, rfl⟩)
      fun ws acc hacc _ => ⟨acc, haccounts ▸ hacc, rfl, rfl⟩
  cases hw with
  | money hw =>
    cases hw with
    | drawn => exact hsame rfl rfl (Nat.le_succ _)
    | account hacc hcard => exact h.account hacc hcard.provider hcard.subscriptionId
    | @opened ws currency hnone =>
      refine h.frame rfl le_rfl (fun ws' acc hacc => ⟨acc, ?_, rfl, rfl⟩) fun ws' acc hacc hsome => ?_
      · have hne : ws' ≠ ws := by
          rintro rfl
          rw [hnone] at hacc
          cases hacc
        simpa [Table.get_put_ne _ _ hne] using hacc
      · simp only [Table.get_put] at hacc
        split at hacc
        · cases hacc
          simp at hsome
        · exact ⟨acc, hacc, rfl, rfl⟩
    | subscriptions => exact hsame rfl rfl le_rfl
    | duplicate card hstatus hnew => exact h.duplicate hstatus hnew
    | saved card hstatus hnew hfree hacc => exact h.save hstatus hnew hfree
    | moved card' hcard hmove =>
      rw [live_ended]
      cases hlive : card'.status.live with
      | true => exact h.stay hcard hmove hlive
      | false => exact h.drop hcard hmove (by simp [hlive])
    | wallet => exact hsame rfl rfl le_rfl
    | posted => exact hsame rfl rfl (Nat.le_succ _)
  | opened => exact hsame rfl rfl (Nat.le_succ _)
  | renewal on hmay hacc => exact h.account hacc rfl rfl
  | credited => exact hsame rfl rfl (Nat.le_succ _)
  | edited | noted | ended | verified | succeeded | refunded => exact hsame rfl rfl le_rfl

theorem Statement.follows (hw : Statement may db db') (h : CardsKept db)
    (hcard : db.cards.get id = some card) :
    ∃ card', db'.cards.get id = some card' ∧ card.Follows card' := by
  have hne : id ≠ db.nextId := (h.old id card hcard).ne
  have hput : ∀ c, (db.cards.put db.nextId c).get id = some card := fun c => by
    rw [Table.get_put_ne _ _ hne, hcard]
  cases hw with
  | money hw =>
    cases hw with
    | duplicate c => exact ⟨card, hput c, .refl _⟩
    | saved c => exact ⟨card, hput c, .refl _⟩
    | @moved cardId old card' hold hmove =>
      by_cases hid : id = cardId
      · cases hold.symm.trans (hid ▸ hcard)
        exact ⟨card', by simp [hid], hmove.follows⟩
      · exact ⟨card, by simpa [Table.get_put_ne _ _ hid] using hcard, .refl _⟩
    | _ => exact ⟨card, hcard, .refl _⟩
  | _ => exact ⟨card, hcard, .refl _⟩

/-- No write but the customer's switches auto-renew on without a live card. -/
theorem Statement.renewsByCard (hw : Statement may db db') (h : CardsKept db)
    (hmay : ¬may .autoRenew) (hws : db.RenewsByCard ws) : db'.RenewsByCard ws := by
  have hold : ∀ {acc}, db.NamesLive ws acc → ∀ c,
      Db.NamesLive { db with cards := db.cards.put db.nextId c } ws acc := by
    rintro acc ⟨id, card, hcard, hrest⟩ c
    refine ⟨id, card, ?_, hrest⟩
    have hne : id ≠ db.nextId := (h.old id card hcard).ne
    simpa [Table.get_put_ne _ _ hne] using hcard
  cases hw with
  | money hw =>
    cases hw with
    | @account ws' acc acc' hacc hsame =>
      intro a ha hrenew
      simp only [Table.get_put] at ha
      split at ha
      · rename_i heq
        cases ha
        obtain ⟨id, card, hcard, hcw, hl, hp, hs⟩ :=
          hws acc (heq ▸ hacc) (hsame.autoRenew ▸ hrenew)
        exact ⟨id, card, hcard, hcw, hl, hsame.provider.trans hp, hsame.subscriptionId.trans hs⟩
      · exact hws a ha hrenew
    | opened =>
      intro a ha hrenew
      simp only [Table.get_put] at ha
      split at ha
      · cases ha
        cases hrenew
      · exact hws a ha hrenew
    | duplicate c => exact fun a ha hrenew => hold (hws a ha hrenew) c
    | saved c hstatus hnew hfree hacc =>
      intro a ha hrenew
      simp only [Table.get_put] at ha
      split at ha
      · rename_i heq
        cases ha
        exact ⟨db.nextId, c, Table.get_put_self _ _ _, heq.symm, by rw [hstatus]; rfl, rfl, rfl⟩
      · exact hold (hws a ha hrenew) c
    | @moved cardId card card' hcard hmove =>
      intro a ha hrenew
      rw [live_ended] at ha
      cases hlive : card'.status.live with
      | true =>
        simp only [hlive, Bool.not_true, Bool.false_eq_true, if_false] at ha
        exact (hws a ha hrenew).moved hcard hmove (.inl hlive)
      | false =>
        simp only [hlive, Bool.not_false, if_true] at ha
        rcases dropped_account ha with ⟨-, -, hoff⟩ | ⟨hold', hnot⟩
        · rw [hoff] at hrenew
          cases hrenew
        · exact (hws a hold' hrenew).moved hcard hmove (.inr hnot)
    | _ => exact hws
  | renewal on hauto =>
    intro a ha hrenew
    simp only [Table.get_put] at ha
    split at ha
    · cases ha
      exact absurd (hauto hrenew) hmay
    · exact hws a ha hrenew
  | _ => exact hws

theorem Statement.leaves (hw : Statement may db db') (h : CardsKept db) {card' : Card}
    (hcard : db.cards.get id = some card) (hlive : card.status.live)
    (hcard' : db'.cards.get id = some card') (hended : ¬card'.status.live) :
    db'.RenewsByCard card.workspaceId := by
  have hne : id ≠ db.nextId := (h.old id card hcard).ne
  have hput : ∀ c, (db.cards.put db.nextId c).get id = some card' → card = card' := fun c hc => by
    rw [Table.get_put_ne _ _ hne, hcard] at hc
    exact Option.some.inj hc
  have hsame : card = card' → db'.RenewsByCard card.workspaceId := fun heq =>
    absurd hlive (heq ▸ hended)
  cases hw with
  | money hw =>
    cases hw with
    | duplicate c => exact hsame (hput c hcard')
    | saved c => exact hsame (hput c hcard')
    | @moved cardId old new hold hmove =>
      by_cases hid : id = cardId
      · cases hold.symm.trans (hid ▸ hcard)
        have hnew : new = card' := by simpa [hid] using hcard'
        intro acc hacc hrenew
        have hended' : new.status.ended = true := by simp [live_ended, hnew, hended]
        simp only [hended', if_true] at hacc
        rcases dropped_account hacc with ⟨-, -, hoff⟩ | ⟨ha, hnot⟩
        · rw [hoff] at hrenew
          cases hrenew
        · obtain ⟨a, ha', hnames⟩ := h.named id card hcard hlive
          cases ha.symm.trans ha'
          exact absurd hnames (hnot rfl)
      · have hkept : db.cards.get id = some card' := by
          simpa [Table.get_put_ne _ _ hid] using hcard'
        exact hsame (Option.some.inj (hcard.symm.trans hkept))
    | _ => exact hsame (Option.some.inj (hcard.symm.trans hcard'))
  | _ => exact hsame (Option.some.inj (hcard.symm.trans hcard'))

def Db.CardsFollow (db db' : Db) : Prop :=
  ∀ id card, db.cards.get id = some card →
    ∃ card', db'.cards.get id = some card' ∧ card.Follows card'

/-- Where a card left live, auto-renew is on only through another one. -/
def Db.LeavesOff (db db' : Db) : Prop :=
  ∀ id card card', db.cards.get id = some card → card.status.live →
    db'.cards.get id = some card' → ¬card'.status.live → db'.RenewsByCard card.workspaceId

theorem cardsFollow_refl (db : Db) : db.CardsFollow db :=
  fun _ card hcard => ⟨card, hcard, .refl card⟩

theorem Db.CardsFollow.trans {db'' : Db} (h : db.CardsFollow db') (h' : db'.CardsFollow db'') :
    db.CardsFollow db'' := by
  intro id card hcard
  obtain ⟨card', hcard', hfollows⟩ := h id card hcard
  obtain ⟨card'', hcard'', hfollows'⟩ := h' id card' hcard'
  exact ⟨card'', hcard'', hfollows.trans hfollows'⟩

theorem step_follows (h : CardsKept db) (c : Timestamp × Operation) :
    CardsKept (db.step c) ∧ db.CardsFollow (db.step c) := by
  have hwrite : ∀ a b, Statement (fun _ => True) a b → CardsKept a ∧ db.CardsFollow a →
      CardsKept b ∧ db.CardsFollow b := fun a b hw hI =>
    ⟨hI.1.write hw, hI.2.trans fun _ _ hcard => hw.follows hI.1 hcard⟩
  have hwallet : ∀ (a : Db) (w : AiWallet.Wallet), CardsKept a ∧ db.CardsFollow a →
      CardsKept { a with wallet := w } ∧ db.CardsFollow { a with wallet := w } := fun a w hI =>
    ⟨⟨hI.1.old, hI.1.unique, hI.1.live, hI.1.named, hI.1.names⟩, hI.2⟩
  exact step_keeps hwrite hwallet ⟨h, cardsFollow_refl db⟩ c (fun _ => trivial) (fun _ => trivial)
    fun _ => trivial

theorem step_renews (h : CardsKept db) (c : Timestamp × Operation) (hop : c.2.isAutoRenew = false) :
    (∀ ws, db.RenewsByCard ws → (db.step c).RenewsByCard ws) ∧ db.LeavesOff (db.step c) := by
  let I : Db → Prop := fun a => CardsKept a ∧ db.CardsFollow a ∧
    (∀ ws, db.RenewsByCard ws → a.RenewsByCard ws) ∧ db.LeavesOff a
  have hwrite : ∀ a b, Statement (· ≠ .autoRenew) a b → I a → I b := by
    rintro a b hw ⟨hkept, hfollow, hrenews, hleaves⟩
    refine ⟨hkept.write hw, hfollow.trans fun _ _ hcard => hw.follows hkept hcard,
      fun ws hws => hw.renewsByCard hkept (by simp) (hrenews ws hws), ?_⟩
    intro id card card' hcard hlive hcard' hended
    obtain ⟨mid, hmid, hfollows⟩ := hfollow id card hcard
    rw [← hfollows.workspaceId]
    by_cases hl : mid.status.live
    · exact hw.leaves hkept hmid hl hcard' hended
    · refine hw.renewsByCard hkept (by simp) ?_
      rw [hfollows.workspaceId]
      exact hleaves id card mid hcard hlive hmid hl
  have hwallet : ∀ (a : Db) (w : AiWallet.Wallet), I a → I { a with wallet := w } :=
    fun a w hI =>
      ⟨⟨hI.1.old, hI.1.unique, hI.1.live, hI.1.named, hI.1.names⟩, hI.2.1, hI.2.2.1, hI.2.2.2⟩
  have hself : db.LeavesOff db := by
    intro id card card' hcard hlive hcard' hended
    cases hcard.symm.trans hcard'
    exact absurd hlive hended
  exact (step_keeps hwrite hwallet ⟨h, cardsFollow_refl db, fun _ => id, hself⟩ c (by simp)
    (by simp [hop]) (by simp)).2.2

theorem step_switch (db : Db) (c : Timestamp × Operation) (hop : c.2.isAutoRenew = true) :
    (db.step c).cards = db.cards := by
  obtain ⟨now, op⟩ := c
  cases op with
  | setAutoRenew ws on =>
    unfold Db.step commit
    split
    · rename_i u db' hr
      have hset : updateAccount ws (fun a => some { a with autoRenew := on }) db = .ok (u, db') := hr
      rcases updateAccount_ok hset with ⟨-, hdb⟩ | ⟨_, _, -, -, hdb⟩
      · rw [show db' = db from hdb]
      · rw [show db' = _ from hdb]
    · rfl
  | _ => cases hop

theorem step_leaves (h : CardsKept db) (c : Timestamp × Operation) : db.LeavesOff (db.step c) := by
  cases hop : c.2.isAutoRenew with
  | false => exact (step_renews h c hop).2
  | true =>
    intro id card card' hcard hlive hcard' hended
    rw [step_switch db c hop, hcard] at hcard'
    cases hcard'
    exact absurd hlive hended

theorem call_db (d : CardDb) (c : Timestamp × CardCall) :
    (∃ op, c.2 = .billing op ∧ (d.call c).db = d.db.step (c.1, op)) ∨ (d.call c).db = d.db := by
  obtain ⟨now, c⟩ := c
  cases c with
  | billing op => exact .inl ⟨op, rfl, rfl⟩
  | touch due => exact .inr rfl
  | markSynced cardId version mirror error =>
    refine .inr ?_
    simp only [CardDb.call, CardDb.markSynced]
    cases d.sync.get cardId <;> rfl

theorem call_follows (h : CardsKept d.db) (c : Timestamp × CardCall) :
    CardsKept (d.call c).db ∧ d.db.CardsFollow (d.call c).db := by
  rcases call_db d c with ⟨op, -, hdb⟩ | hdb
  · rw [hdb]
    exact step_follows h _
  · rw [hdb]
    exact ⟨h, cardsFollow_refl _⟩

theorem run_follows (h : CardsKept d.db) (calls : List (Timestamp × CardCall)) :
    CardsKept (run CardDb.call d calls).db ∧ d.db.CardsFollow (run CardDb.call d calls).db := by
  induction calls generalizing d with
  | nil => exact ⟨h, cardsFollow_refl _⟩
  | cons c calls ih =>
    obtain ⟨hkept, hfollow⟩ := call_follows h c
    obtain ⟨hrun, hrest⟩ := ih hkept
    exact ⟨hrun, hfollow.trans hrest⟩

def CardCall.isAutoRenew : CardCall → Bool
  | billing op => op.isAutoRenew
  | _ => false

theorem run_renews (h : CardsKept d.db) {calls : List (Timestamp × CardCall)}
    (hcalls : ∀ c ∈ calls, c.2.isAutoRenew = false) (hws : d.db.RenewsByCard ws) :
    (run CardDb.call d calls).db.RenewsByCard ws := by
  induction calls generalizing d with
  | nil => exact hws
  | cons c calls ih =>
    refine ih (call_follows h c).1 (fun c' hc' => hcalls c' (List.mem_cons_of_mem _ hc')) ?_
    have hop := hcalls c List.mem_cons_self
    rcases call_db d c with ⟨op, hc, hdb⟩ | hdb
    · rw [hdb]
      rw [hc] at hop
      exact (step_renews h (c.1, op) hop).1 ws hws
    · rwa [hdb]

/-- Whatever is called, in any order: one live card a workspace, which its account
names, and an account names nothing else; a canceled card stays canceled, and one
that is not live never is again; and where a card leaves live, auto-renew goes off
with it, so that it is on only through a live card unless a customer switched it. -/
theorem saved_cards (calls : List (Timestamp × CardCall)) :
    let d := run CardDb.call .empty calls
    d.db.OneLive ∧
      (∀ id card, d.db.cards.get id = some card → card.status.live →
        ∃ acc, d.db.accounts.get card.workspaceId = some acc ∧ acc.Names card) ∧
      (∀ ws acc, d.db.accounts.get ws = some acc →
        (acc.cardProvider.isSome ∨ acc.cardSubscriptionId.isSome) → d.db.NamesLive ws acc) ∧
      (∀ more, d.db.CardsFollow (run CardDb.call d more).db) ∧
      (∀ c, d.db.LeavesOff (d.call c).db) ∧
      ((∀ c ∈ calls, c.2.isAutoRenew = false) → ∀ ws, d.db.RenewsByCard ws) := by
  intro d
  obtain ⟨hkept, -⟩ : CardsKept d.db ∧ _ := run_follows cardsKept_empty calls
  refine ⟨hkept.live, hkept.named, hkept.names, fun more => (run_follows hkept more).2, fun c => ?_,
    fun hcalls ws => run_renews cardsKept_empty hcalls (renewsByCard_empty ws)⟩
  rcases call_db d c with ⟨op, -, hdb⟩ | hdb
  · rw [hdb]
    exact step_leaves hkept _
  · rw [hdb]
    intro id card card' hcard hlive hcard' hended
    cases hcard.symm.trans hcard'
    exact absurd hlive hended

def cardSaved : List (Timestamp × CardCall) :=
  [(0, .billing (.createPayment
      { workspaceId := 7, provider := "paddle", currency := "USD", amountMinor := 100
        netMinor := 100, taxMinor := 0, source := .cardSetup, amount_check := by decide })),
    (1, .billing (.cardRegister "paddle" "sub" (some "USD") 0))]

/-- It is removed, and reported paid later. -/
theorem saved_cards_removed :
    let d := run CardDb.call .empty cardSaved
    (d.db.accounts.get 7).isSome ∧ (d.db.cards.get 1).isSome ∧
      (∀ acc ∈ d.db.accounts.get 7, d.db.NamesLive 7 acc) ∧
      ∀ card ∈ d.db.cards.get 1,
        ∃ card', (run CardDb.call d [(2, .billing (.cardSetStatus 1 .canceled none)),
          (3, .billing (.cardSetStatus 1 .active none))]).db.cards.get 1 = some card' ∧
          card.Follows card' := by
  intro d
  obtain ⟨-, -, hnames, hfollow, -⟩ := saved_cards cardSaved
  have hnamed : ∀ acc ∈ d.db.accounts.get 7,
      acc.cardProvider.isSome ∨ acc.cardSubscriptionId.isSome := by decide +kernel
  exact ⟨by decide +kernel, by decide +kernel, fun acc hacc => hnames 7 acc hacc (hnamed acc hacc),
    fun card hcard => hfollow _ 1 card hcard⟩

end Kindred.Billing
