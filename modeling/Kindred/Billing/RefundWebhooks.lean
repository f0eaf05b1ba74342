import Kindred.Billing.Credits

/-! The webhooks of a provider that reports the total refunded so far: a handler
reads the payment's row, and calls the database later. -/

namespace Kindred.Billing
open Lib (Table Meets run run_keeps)
open Lib.Tx

inductive WebhookType where
  | paymentSucceeded | refundProcessed | other
  deriving DecidableEq

/-- `WebhookEvent` -/
structure WebhookEvent where
  type : WebhookType
  providerEventId : String := ""
  providerPaymentId : Option String := none
  providerRef : Option String := none
  amount : Option Int := none
  currency : Option String := none
  refundId : Option String := none
  refundedTotal : Option Int := none

/-- `String.prototype.trim` -/
def trim (s : String) : String :=
  String.ofList ((s.toList.dropWhile Char.isWhitespace).reverse.dropWhile Char.isWhitespace).reverse

/-- `normalizeCurrencyCode` -/
def normalizeCurrencyCode (currency : Option String) : Option String :=
  (currency.map fun c => (trim c).toUpper).filter validCurrency

def Payment.takenBack (p : Payment) : Int :=
  (p.purposeDetail.refunds.rows.map fun r => r.2.amountMinor).sum

def totalKey (total : Int) : String := "total:" ++ toString total

def WebhookEvent.refund (e : WebhookEvent) (payment : Payment) : String × Option Int :=
  match e.refundId.filter (· ≠ ""), e.refundedTotal with
  | some id, _ => (id, e.amount)
  | none, some total => (totalKey total, some (total - payment.takenBack))
  | none, none => (trim e.providerEventId, e.amount)

def WebhookEvent.transaction (e : WebhookEvent) : String :=
  trim ((e.providerPaymentId.filter (· ≠ "")).getD (e.providerRef.getD ""))

/-- The calls a handler makes, one after another until one raises. -/
def webhookCalls (paymentId : Id) (payment : Payment) (e : WebhookEvent) : List Operation :=
  match e.type with
  | .refundProcessed =>
    match e.refund payment with
    | (refundId, some amount) =>
      if refundId = "" ∨ amount ≤ 0 then [] else [.refundPayment paymentId refundId (some amount)]
    | (_, none) => []
  | .paymentSucceeded =>
    if payment.provider ∈ cardProviders ∧
        (e.transaction = "" ∨ some e.transaction ≠ payment.providerRef) then []
    else if payment.status = .succeeded then []
    else if payment.verifiedAt.isSome then [.settlePayment paymentId]
    else
      let currency := (normalizeCurrencyCode e.currency).getD ""
      if e.amount ≠ some payment.amountMinor ∨ currency ≠ payment.currency ∨ e.transaction = "" then
        []
      else [.recordVerification paymentId e.amount currency e.transaction, .settlePayment paymentId]
  | .other => []

structure Handler where
  paymentId : Id
  payment : Payment
  calls : List Operation

/-- The database, the handlers under way, and the totals reported so far. -/
structure Webhooks where
  db : Db
  handlers : List Handler
  reported : List (Id × Int)

def Webhooks.empty : Webhooks := ⟨.empty, [], []⟩

inductive WebhookStep where
  /-- `handleAccountPaymentWebhook` starts with the payment's row as it is. -/
  | receive (paymentId : Id) (providerName : String) (workspaceId : Id) (event : WebhookEvent)
  | call (handler : Nat)
  | other (op : { op : Operation // op.isRefund = false })

/-- Whether the call went through. -/
def Db.answers (db : Db) (c : Timestamp × Operation) : Bool :=
  match c.2.call c.1 db with
  | .ok _ => true
  | .error _ => false

def Webhooks.receive (s : Webhooks) (paymentId : Id) (providerName : String) (workspaceId : Id)
    (event : WebhookEvent) : Webhooks :=
  match s.db.payments.get paymentId with
  | none => s
  | some payment =>
    if payment.workspaceId = workspaceId ∧ payment.provider = providerName then
      { s with
        handlers := s.handlers ++ [⟨paymentId, payment, webhookCalls paymentId payment event⟩]
        reported := s.reported ++ (event.refundedTotal.map fun total => (paymentId, total)).toList }
    else s

def Webhooks.call (s : Webhooks) (now : Timestamp) (i : Nat) : Webhooks :=
  match s.handlers[i]? with
  | none => s
  | some h =>
    match h.calls with
    | [] => s
    | op :: calls =>
      { s with
        db := s.db.step (now, op)
        handlers := s.handlers.set i
          { h with calls := if s.db.answers (now, op) then calls else [] } }

def Webhooks.step (s : Webhooks) (c : Timestamp × WebhookStep) : Webhooks :=
  match c.2 with
  | .receive paymentId providerName workspaceId event =>
    s.receive paymentId providerName workspaceId event
  | .call i => s.call c.1 i
  | .other op => { s with db := s.db.step (c.1, op.1) }

def Db.takenBack (db : Db) (paymentId : Id) : Int :=
  ((db.payments.get paymentId).map Payment.takenBack).getD 0

def Db.hasRefund (db : Db) (paymentId : Id) (refundId : String) : Bool :=
  (db.payments.get paymentId).any fun p => (p.purposeDetail.refunds.get refundId).isSome

def Webhooks.totals (s : Webhooks) (paymentId : Id) : List Int :=
  (s.reported.filter fun r => r.1 = paymentId).map Prod.snd

def Webhooks.Bounded (s : Webhooks) (paymentId : Id) : Prop :=
  ∃ total ∈ 0 :: s.totals paymentId, s.db.takenBack paymentId ≤ total

def WebhookStep.ReportsTotals (paymentId : Id) : WebhookStep → Prop
  | receive id _ _ event => id = paymentId → event.type = .refundProcessed →
    (event.refundId.filter (· ≠ "")) = none ∧ event.refundedTotal.isSome
  | _ => True

def Handler.UpToDate (h : Handler) (db : Db) : Prop :=
  match h.calls with
  | .refundPayment id refundId _ :: _ =>
    db.takenBack id = h.payment.takenBack ∨ db.hasRefund id refundId
  | _ => True

/-- No refund of the payment was recorded between a handler's read and its call. -/
def Timely (paymentId : Id) (s : Webhooks) (c : Timestamp × WebhookStep) : Prop :=
  c.2.ReportsTotals paymentId ∧
  match c.2 with
  | .call i => ∀ h ∈ s.handlers[i]?, h.paymentId = paymentId → h.UpToDate s.db
  | _ => True

instance (paymentId : Id) (c : WebhookStep) : Decidable (c.ReportsTotals paymentId) := by
  unfold WebhookStep.ReportsTotals
  split <;> infer_instance

instance (h : Handler) (db : Db) : Decidable (h.UpToDate db) := by
  unfold Handler.UpToDate
  split <;> infer_instance

instance (paymentId : Id) (s : Webhooks) (c : Timestamp × WebhookStep) :
    Decidable (Timely paymentId s c) := by
  unfold Timely
  split <;> infer_instance

variable {now : Timestamp} {db : Db} {refundId : String} {paymentId : Id} {s : Webhooks}

variable {id P : Id} {pay : Payment} {r : RefundResult × Db} {amount : Option Int}

theorem takenBack_put (other : Id) :
    Db.takenBack { db with payments := db.payments.put id pay } other =
      if other = id then pay.takenBack else db.takenBack other := by
  by_cases h : other = id <;> simp [Db.takenBack, Table.get_put, h]

theorem Statement.takenBack {db' : Db} (h : Statement (· ≠ .refund) db db') (hdb : Credited db) (id : Id) :
    db'.takenBack id = db.takenBack id := by
  have hsame : ∀ {i : Id} {pay pay' : Payment}, db.payments.get i = some pay →
      pay'.purposeDetail.refunds = pay.purposeDetail.refunds →
      Db.takenBack { db with payments := db.payments.put i pay' } id = db.takenBack id := by
    intro i pay pay' hpay hrefunds
    rw [takenBack_put]
    split
    · rename_i hi
      simp [Db.takenBack, hi, hpay, Payment.takenBack, hrefunds]
    · rfl
  cases h with
  | money h => simp only [Db.takenBack, h.payments]
  | edited => rfl
  | opened hpay =>
    have hnew : db.payments.get db.nextId = none := by
      cases hget : db.payments.get db.nextId with
      | none => rfl
      | some pay => exact absurd (hdb.old _ _ hget) (lt_irrefl _)
    by_cases hid : id = db.nextId
    · simp [Db.takenBack, hid, hnew, Payment.takenBack, hpay.refunds, Table.empty]
    · simp [Db.takenBack, Table.get_put_ne _ _ hid]
  | noted hpay h => exact hsame hpay h.refunds
  | ended hpay => exact hsame hpay rfl
  | verified hpay => exact hsame hpay rfl
  | credited => rfl
  | succeeded hpay => exact hsame hpay rfl
  | refunded hmay => exact absurd rfl hmay
  | renewal => rfl

theorem step_takenBack (hdb : Credited db) {c : Timestamp × Operation}
    (hop : c.2.isRefund = false) (id : Id) : (db.step c).takenBack id = db.takenBack id := by
  have hwrite : ∀ a b, Statement (· ≠ .refund) a b → Credited a ∧ a.takenBack id = db.takenBack id →
      Credited b ∧ b.takenBack id = db.takenBack id := fun a b h hI =>
    ⟨credited_writes (.single (h.mono fun _ _ => trivial)) hI.1, (h.takenBack hI.1 id).trans hI.2⟩
  have hwallet : ∀ (a : Db) (w : AiWallet.Wallet), Credited a ∧ a.takenBack id = db.takenBack id →
      Credited { a with wallet := w } ∧ Db.takenBack { a with wallet := w } id = db.takenBack id :=
    fun a w hI => ⟨hI.1.frame rfl rfl le_rfl, hI.2⟩
  exact (step_keeps hwrite hwallet ⟨hdb, rfl⟩ c (by simp [hop]) (by simp) (by simp)).2

theorem takenBack_recordRefund {record : RefundRecord}
    (hnew : pay.purposeDetail.refunds.get refundId = none) :
    (pay.recordRefund refundId record).takenBack = pay.takenBack + record.amountMinor := by
  simp [Payment.takenBack, Payment.recordRefund, put_rows_new hnew]

theorem applyRefund_payments {amount credit : Int} (hpay : db.payments.get paymentId = some pay)
    (h : applyRefund now paymentId pay refundId amount credit db = .ok r) :
    ∃ record : RefundRecord, record.amountMinor = amount ∧
      r.2.payments = db.payments.put paymentId (pay.recordRefund refundId record) := by
  obtain ⟨pack, db₁, hpack, h⟩ := bind_ok.mp h
  obtain ⟨released, db₂, hrelease, h⟩ := bind_ok.mp h
  obtain ⟨⟨debited, ledgerId⟩, db₃, hdebit, h⟩ := bind_ok.mp h
  obtain ⟨_, db₄, hupdate, h⟩ := bind_ok.mp h
  rw [pure_ok.mp h]
  have hsame : db₃.payments = db.payments := by
    rw [show db₃.payments = _ from debitRefund_made.payments hdebit,
      show db₂.payments = _ from (releaseForRefund_made trivial).payments hrelease,
      show db₁.payments = _ from (reverseForRefund_made trivial).payments hpack]
  refine ⟨{ amountMinor := amount, creditMinor := credit, shortfallMinor := credit - debited
            releasedPrepaidMinor := released, packReturnedMinor := pack.returnedMinor
            packReclaimedWallet := pack.reclaimedWallet }, rfl, ?_⟩
  rw [show db₄ = _ from congrArg Prod.snd (modify_ok.mp hupdate)]
  simp only [hsame, Table.update, hpay]

theorem refundPayment_takenBack (h : refundPayment now paymentId refundId amount db = .ok r) :
    (∀ id, r.2.takenBack id = db.takenBack id) ∨
      db.hasRefund paymentId refundId = false ∧ ∀ id, r.2.takenBack id =
        if id = paymentId then db.takenBack id + amount.getD 0 else db.takenBack id := by
  obtain ⟨-, h⟩ := require_bind_ok.mp h
  rw [get_bind] at h
  cases hpay : db.payments.get paymentId with
  | none =>
    simp only [hpay] at h
    exact (throw_ok.mp h).elim
  | some pay =>
    simp only [hpay] at h
    rcases ite_ok.mp h with ⟨-, h⟩ | ⟨hnew, h⟩
    · rw [pure_ok.mp h]
      exact .inl fun _ => rfl
    · obtain ⟨-, h⟩ := require_bind_ok.mp h
      rcases ite_ok.mp h with ⟨-, h⟩ | ⟨-, h⟩
      · rw [pure_ok.mp h]
        exact .inl fun _ => rfl
      · have hnone : pay.purposeDetail.refunds.get refundId = none := by
          simpa using fun hsome => hnew (.inr hsome)
        obtain ⟨record, hamount, hpayments⟩ := applyRefund_payments hpay h
        refine .inr ⟨by simp [Db.hasRefund, hpay, hnone], fun id => ?_⟩
        by_cases hid : id = paymentId
        · simp [Db.takenBack, hpayments, hid, hpay, takenBack_recordRefund hnone, hamount]
        · simp [Db.takenBack, hpayments, hid, Table.get_put_ne _ _ hid]

theorem refund_step (now : Timestamp) (db : Db) (paymentId : Id) (refundId : String)
    (amount : Option Int) :
    (∀ id, (db.step (now, .refundPayment paymentId refundId amount)).takenBack id =
      db.takenBack id) ∨ db.hasRefund paymentId refundId = false ∧ ∀ id,
      (db.step (now, .refundPayment paymentId refundId amount)).takenBack id =
        if id = paymentId then db.takenBack id + amount.getD 0 else db.takenBack id := by
  unfold Db.step commit
  split
  · rename_i h
    obtain ⟨a, h⟩ := discard_ok h
    exact refundPayment_takenBack h
  · exact .inl fun _ => rfl

structure WebhooksSound (paymentId : Id) (s : Webhooks) : Prop where
  credited : Credited s.db
  asks : ∀ h ∈ s.handlers, ∀ id refundId amount, .refundPayment id refundId amount ∈ h.calls →
    id = h.paymentId ∧ (id = paymentId →
      ∃ total ∈ s.totals paymentId, amount = some (total - h.payment.takenBack))
  bounded : s.Bounded paymentId

theorem webhooksSound_empty (paymentId : Id) : WebhooksSound paymentId .empty where
  credited := credited_empty
  asks h hmem := by simp [Webhooks.empty] at hmem
  bounded := ⟨0, by simp, le_rfl⟩

theorem webhookCalls_refund {payment : Payment} {e : WebhookEvent} {i : Id}
    (h : .refundPayment i refundId amount ∈ webhookCalls id payment e) :
    i = id ∧ e.type = .refundProcessed ∧ amount = (e.refund payment).2 := by
  unfold webhookCalls at h
  split at h
  · rename_i htype
    split at h
    · rename_i hrefund
      split at h
      · simp at h
      · simp only [List.mem_singleton, Operation.refundPayment.injEq] at h
        obtain ⟨rfl, -, rfl⟩ := h
        exact ⟨rfl, htype, by rw [hrefund]⟩
    · simp at h
  · simp only at h
    split at h
    · simp at h
    · split at h
      · simp at h
      · split at h
        · simp at h
        · split at h <;> simp at h
  · simp at h

theorem Webhooks.totals_mono {s' : Webhooks} {more : List (Id × Int)}
    (h : s'.reported = s.reported ++ more) {total : Int} (htotal : total ∈ s.totals paymentId) :
    total ∈ s'.totals paymentId := by
  simp only [Webhooks.totals, h, List.filter_append, List.map_append, List.mem_append]
  exact .inl htotal

theorem receive_sound (hs : WebhooksSound P s) {providerName : String} {workspaceId : Id}
    {event : WebhookEvent}
    (hreports : (WebhookStep.receive paymentId providerName workspaceId event).ReportsTotals P) :
    WebhooksSound P (s.receive paymentId providerName workspaceId event) := by
  unfold Webhooks.receive
  cases hpay : s.db.payments.get paymentId with
  | none => exact hs
  | some payment =>
    simp only
    split
    swap
    · exact hs
    refine ⟨hs.credited, fun h hmem id refundId amount hcall => ?_, ?_⟩
    · rcases List.mem_append.mp hmem with hmem | hmem
      · obtain ⟨hid, hask⟩ := hs.asks h hmem id refundId amount hcall
        refine ⟨hid, fun hP => ?_⟩
        obtain ⟨total, htotal, hamount⟩ := hask hP
        exact ⟨total, Webhooks.totals_mono rfl htotal, hamount⟩
      · cases List.mem_singleton.mp hmem
        obtain ⟨hid, htype, hamount⟩ := webhookCalls_refund hcall
        refine ⟨hid, fun hP => ?_⟩
        obtain ⟨hnone, hsome⟩ := hreports (hid.symm.trans hP) htype
        obtain ⟨total, htotal⟩ := Option.isSome_iff_exists.mp hsome
        refine ⟨total, ?_, ?_⟩
        · simp [Webhooks.totals, htotal, ← hid, hP]
        · simp only [hamount, WebhookEvent.refund, hnone, htotal]
    · obtain ⟨total, htotal, hle⟩ := hs.bounded
      refine ⟨total, ?_, hle⟩
      rcases List.mem_cons.mp htotal with h0 | htotal
      · exact h0 ▸ List.mem_cons_self
      · exact List.mem_cons_of_mem _ (Webhooks.totals_mono rfl htotal)

theorem callStep_bounded (hs : WebhooksSound P s) (now : Timestamp) {h : Handler}
    (hmem : h ∈ s.handlers) {op : Operation} {calls : List Operation}
    (hcalls : h.calls = op :: calls) (hfresh : h.paymentId = P → h.UpToDate s.db) :
    ∃ total ∈ 0 :: s.totals P, (s.db.step (now, op)).takenBack P ≤ total := by
  obtain ⟨total, htotal, hle⟩ := hs.bounded
  cases hop : op.isRefund with
  | false => exact ⟨total, htotal, by rw [step_takenBack hs.credited hop]; exact hle⟩
  | true =>
    cases op with
    | refundPayment id refundId amount =>
      rcases refund_step now s.db id refundId amount with hsame | ⟨hnew, hadds⟩
      · exact ⟨total, htotal, by rw [hsame]; exact hle⟩
      · by_cases hP : P = id
        · subst hP
          obtain ⟨hid, hask⟩ := hs.asks h hmem P refundId amount (by simp [hcalls])
          obtain ⟨asked, hasked, hamount⟩ := hask rfl
          have hread := hfresh hid.symm
          simp only [Handler.UpToDate, hcalls] at hread
          rcases hread with hread | hrecorded
          · refine ⟨asked, List.mem_cons_of_mem _ hasked, ?_⟩
            rw [hadds, if_pos rfl, hread, hamount, Option.getD_some]
            omega
          · rw [hnew] at hrecorded
            cases hrecorded
        · exact ⟨total, htotal, by rw [hadds, if_neg hP]; exact hle⟩
    | _ => cases hop

theorem call_sound (hs : WebhooksSound P s) (now : Timestamp) (i : Nat)
    (hfresh : ∀ h ∈ s.handlers[i]?, h.paymentId = P → h.UpToDate s.db) :
    WebhooksSound P (s.call now i) := by
  unfold Webhooks.call
  cases hi : s.handlers[i]? with
  | none => exact hs
  | some h =>
    simp only
    have hmem : h ∈ s.handlers := List.mem_of_getElem? hi
    cases hcalls : h.calls with
    | nil => exact hs
    | cons op calls =>
      refine ⟨hs.credited.step _, fun h' hmem' id refundId amount hcall => ?_,
        callStep_bounded hs now hmem hcalls (hfresh h hi)⟩
      rcases List.mem_or_eq_of_mem_set hmem' with hold | rfl
      · exact hs.asks h' hold id refundId amount hcall
      · refine hs.asks h hmem id refundId amount ?_
        split at hcall
        · exact hcalls ▸ List.mem_cons_of_mem op hcall
        · simp at hcall

theorem webhooks_step (hs : WebhooksSound P s) {c : Timestamp × WebhookStep} (hc : Timely P s c)
    : WebhooksSound P (s.step c) := by
  obtain ⟨now, c⟩ := c
  obtain ⟨hreports, hfresh⟩ := hc
  cases c with
  | receive paymentId providerName workspaceId event => exact receive_sound hs hreports
  | call i => exact call_sound hs now i hfresh
  | other op =>
    refine ⟨hs.credited.step _, hs.asks, ?_⟩
    obtain ⟨total, htotal, hle⟩ := hs.bounded
    exact ⟨total, htotal, by rw [Webhooks.step]; rwa [step_takenBack hs.credited op.2]⟩

/-- In every run where each refund is recorded before the next handler of its
payment reads the row, no more is taken back than was reported. -/
theorem taken_back_bounded {paymentId : Id} {steps : List (Timestamp × WebhookStep)}
    (h : Meets Webhooks.step (Timely paymentId) .empty steps) :
    (run Webhooks.step .empty steps).Bounded paymentId := by
  have hstep : ∀ s c, WebhooksSound paymentId s → Timely paymentId s c →
      WebhooksSound paymentId (s.step c) := fun _ _ hs hc => webhooks_step hs hc
  exact (run_keeps hstep (webhooksSound_empty paymentId) h).bounded

/-- A payment of a thousand, paid and then refunded by a hundred and fifty more. -/
theorem taken_back_bounded_twice :
    let pay : Payment :=
      { workspaceId := 1, provider := "stripe", currency := "USD", amountMinor := 1000
        netMinor := 1000, taxMinor := 0, amount_check := by decide }
    let paid : WebhookEvent :=
      { type := .paymentSucceeded, providerPaymentId := some "pi", amount := some 1000
        currency := some "usd" }
    let refunded (total : Int) : WebhookEvent :=
      { type := .refundProcessed, refundedTotal := some total }
    (run Webhooks.step .empty
      [(0, .other ⟨.createPayment pay, rfl⟩), (1, .receive 0 "stripe" 1 paid), (2, .call 0),
       (3, .call 0), (4, .receive 0 "stripe" 1 (refunded 100)), (5, .call 1),
       (6, .receive 0 "stripe" 1 (refunded 150)), (7, .call 2)]).Bounded 0 := by
  intro pay paid refunded
  exact taken_back_bounded (by decide +kernel)

/-- The totals 100 and 150 are both read before either is recorded, and 250 is
taken back. -/
theorem stale_totals_add_up :
    ¬∀ (steps : List (Timestamp × WebhookStep)) (paymentId : Id),
      (∀ c ∈ steps, c.2.ReportsTotals paymentId) →
      (run Webhooks.step .empty steps).Bounded paymentId := by
  intro h
  have hbounded := h
    [(0, .other ⟨.createPayment
        { workspaceId := 1, provider := "stripe", currency := "USD", amountMinor := 1000
          netMinor := 1000, taxMinor := 0, amount_check := by decide }, rfl⟩),
     (1, .receive 0 "stripe" 1
        { type := .paymentSucceeded, providerPaymentId := some "pi", amount := some 1000
          currency := some "usd" }),
     (2, .call 0), (3, .call 0),
     (4, .receive 0 "stripe" 1 { type := .refundProcessed, refundedTotal := some 100 }),
     (5, .receive 0 "stripe" 1 { type := .refundProcessed, refundedTotal := some 150 }),
     (6, .call 1), (7, .call 2)] 0 (by decide +kernel)
  revert hbounded
  unfold Webhooks.Bounded
  decide +kernel

end Kindred.Billing
