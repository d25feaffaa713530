/-
Billing: `domains/billing/webhook.rs`, with `create_checkout_session` of `service.rs`.

A delivery of a Stripe event, once its signature has been verified, runs one statement at a
time: the row of the event log, up to three SELECTs for the team, and the UPDATE, each its own
transaction. At each await any other request can go on, a statement can fail, and the server
can crash. A checkout is run the same way; what the payment gateway answers comes with the
label.

The state keeps, beside the tables, what has happened (`history`, the latest first). Left out
are `updated_at`, the id, type, payload hash and time of a log row, and the checks of a
checkout that read neither the team nor the plan.
-/
import Bittery.Lib.Runs
import Bittery.Lib.Table
import Bittery.Server.Db
import Bittery.Server.Error

namespace Bittery

open Lib

/-! ## Events -/

/-- `serde_json::Value`; a number that is no `i64` has no value here. -/
inductive JsonValue
  | null
  | bool (b : Bool)
  | number (asI64 : Option Int)
  | string (s : String)
  | array (values : List JsonValue)
  | object (fields : List (String × JsonValue))

namespace JsonValue

def get (key : String) : JsonValue → Option JsonValue
  | object fields => fields.lookup key
  | _ => none

def asStr : JsonValue → Option String
  | string s => some s
  | _ => none

def asI64 : JsonValue → Option Int
  | number n => n
  | _ => none

def asBool : JsonValue → Option Bool
  | bool b => some b
  | _ => none

def asArray : JsonValue → Option (List JsonValue)
  | array values => some values
  | _ => none

end JsonValue

structure StripeEvent where
  id : String
  kind : String
  object : JsonValue

structure StripeConfig where
  personalMonthlyPriceId : Option String
  familyMonthlyPriceId : Option String
  teamSeatMonthlyPriceId : Option String

def toObjectId : Option JsonValue → Option String
  | some (.string id) => some id
  | some (.object fields) => (fields.lookup "id").bind JsonValue.asStr
  | _ => none

def metadataString (object : JsonValue) (key : String) : Option String :=
  ((object.get "metadata").bind (·.get key)).bind JsonValue.asStr

def firstSubscriptionItem (subscription : JsonValue) : Option JsonValue :=
  (((subscription.get "items").bind (·.get "data")).bind JsonValue.asArray).bind List.head?

def getInvoiceSubscriptionId (invoice : JsonValue) : Option String :=
  toObjectId (((invoice.get "parent").bind (·.get "subscription_details")).bind (·.get "subscription"))

/-- An unrecognized plan is dropped. -/
def parsePlanId : Option String → Option BillingPlan
  | some "free" => some .free
  | some "personal" => some .personal
  | some "family" => some .family
  | some "team" => some .team
  | _ => none

def mapStripeStatus : Option String → BillingStatus
  | some "active" => .active
  | some "trialing" => .trialing
  | some "past_due" => .pastDue
  | some "canceled" => .canceled
  | some "unpaid" => .unpaid
  | _ => .incomplete

def BillingPlan.isPaid (plan : BillingPlan) : Bool := plan ≠ .free

def getPlanByStripePriceId (config : StripeConfig) : Option String → Option BillingPlan
  | none => none
  | some priceId =>
    if config.personalMonthlyPriceId = some priceId then some .personal
    else if config.familyMonthlyPriceId = some priceId then some .family
    else if config.teamSeatMonthlyPriceId = some priceId then some .team
    else none

/-- `OffsetDateTime::from_unix_timestamp`, of the years that it can tell. -/
def fromUnixTimestamp (timestamp : Int) : Option Int :=
  if -377705116800 ≤ timestamp ∧ timestamp ≤ 253402300799 then some timestamp else none

def toI32 (n : Int) : Option Int := if -2147483648 ≤ n ∧ n ≤ 2147483647 then some n else none

/-! ## Teams -/

/-- The billing columns of a team. -/
structure BillingTeam where
  id : String
  billingPlan : BillingPlan := .free
  billingStatus : BillingStatus := .none
  stripeCustomerId : Option String := none
  stripeSubscriptionId : Option String := none
  stripeSubscriptionItemId : Option String := none
  stripePriceId : Option String := none
  seatsPurchased : Option Int := none
  currentPeriodEnd : Option Int := none
  cancelAtPeriodEnd : Bool := false
deriving DecidableEq, Repr

abbrev BillingTeams := Table BillingTeam.id

/-- The unique constraints of the two Stripe ids, over the other teams. -/
def BillingTeams.violates (teams : BillingTeams) (r : BillingTeam) : Bool :=
  teams.any fun t => t.id ≠ r.id &&
    (r.stripeCustomerId.isSome && t.stripeCustomerId = r.stripeCustomerId ||
      r.stripeSubscriptionId.isSome && t.stripeSubscriptionId = r.stripeSubscriptionId)

/-- `UPDATE team SET .. WHERE id = ..`: none if a unique constraint does not hold after it. -/
def BillingTeams.update (teams : BillingTeams) (id : String) (f : BillingTeam → BillingTeam)
    (hf : ∀ r, (f r).id = r.id) : Option BillingTeams :=
  match teams.get? id with
  | none => some teams
  | some r => if teams.violates (f r) then none else some (teams.updateWhere (·.id = id) f hf)

/-- A condition of `find_team_for_event`. -/
inductive TeamKey
  | id (id : String)
  | subscription (stripeSubscriptionId : String)
  | customer (stripeCustomerId : String)
deriving DecidableEq, Repr

def TeamKey.matches : TeamKey → BillingTeam → Bool
  | .id teamId, t => t.id = teamId
  | .subscription stripeSubscriptionId, t => t.stripeSubscriptionId = some stripeSubscriptionId
  | .customer stripeCustomerId, t => t.stripeCustomerId = some stripeCustomerId

/-- The SELECTs of `find_team_for_event`, in their order. -/
def teamKeys (teamId stripeCustomerId stripeSubscriptionId : Option String) : List TeamKey :=
  (teamId.map TeamKey.id).toList ++ (stripeSubscriptionId.map TeamKey.subscription).toList ++
    (stripeCustomerId.map TeamKey.customer).toList

/-! ## What an event writes -/

inductive SubscriptionUpdateKind
  | created | updated | deleted
deriving DecidableEq, Repr

inductive StripeEventKind
  | checkoutSessionCompleted
  | subscription (kind : SubscriptionUpdateKind)
  | invoice (billingStatus : BillingStatus)
deriving DecidableEq, Repr

namespace StripeEvent

/-- How `process_stripe_webhook_event` handles the type; the others it ignores. -/
def handler (event : StripeEvent) : Option StripeEventKind :=
  match event.kind with
  | "checkout.session.completed" => some .checkoutSessionCompleted
  | "customer.subscription.created" => some (.subscription .created)
  | "customer.subscription.updated" => some (.subscription .updated)
  | "customer.subscription.deleted" => some (.subscription .deleted)
  | "invoice.paid" => some (.invoice .active)
  | "invoice.payment_failed" => some (.invoice .pastDue)
  | _ => none

variable (event : StripeEvent)

def keys : List TeamKey :=
  match event.handler with
  | none => []
  | some .checkoutSessionCompleted =>
    teamKeys ((metadataString event.object "teamId").or ((event.object.get "client_reference_id").bind JsonValue.asStr))
      (toObjectId (event.object.get "customer")) (toObjectId (event.object.get "subscription"))
  | some (.subscription _) =>
    teamKeys (metadataString event.object "teamId") (toObjectId (event.object.get "customer"))
      ((event.object.get "id").bind JsonValue.asStr)
  | some (.invoice _) =>
    teamKeys none (toObjectId (event.object.get "customer")) (getInvoiceSubscriptionId event.object)

/-! ### A subscription -/

def stripePriceId : Option String :=
  (((firstSubscriptionItem event.object).bind (·.get "price")).bind (·.get "id")).bind JsonValue.asStr

/-- The plan that a subscription is for, if the metadata or the price tells. -/
def subscriptionPlan (config : StripeConfig) : Option BillingPlan :=
  (parsePlanId (metadataString event.object "plan")).or (getPlanByStripePriceId config event.stripePriceId)

def subscriptionStatus (kind : SubscriptionUpdateKind) : BillingStatus :=
  if kind = .deleted then .canceled else mapStripeStatus ((event.object.get "status").bind JsonValue.asStr)

def subscriptionId (kind : SubscriptionUpdateKind) : Option String :=
  if kind = .deleted then none else (event.object.get "id").bind JsonValue.asStr

/-- The SET of `apply_subscription_update`; `read` is the plan that the SELECT has answered. -/
def applySubscriptionUpdate (config : StripeConfig) (kind : SubscriptionUpdateKind) (read : BillingPlan)
    (t : BillingTeam) : BillingTeam :=
  let firstItem := firstSubscriptionItem event.object
  let billingPlan := (event.subscriptionPlan config).getD read
  { t with
    billingPlan
    billingStatus := event.subscriptionStatus kind
    stripeCustomerId := (toObjectId (event.object.get "customer")).or t.stripeCustomerId
    stripeSubscriptionId := event.subscriptionId kind
    stripeSubscriptionItemId :=
      if kind = .deleted then none else (firstItem.bind (·.get "id")).bind JsonValue.asStr
    stripePriceId := if kind = .deleted then none else event.stripePriceId
    seatsPurchased :=
      if kind = .deleted ∨ billingPlan ≠ .team then none
      else ((firstItem.bind (·.get "quantity")).bind JsonValue.asI64).bind toI32
    currentPeriodEnd :=
      if kind = .deleted then none
      else ((firstItem.bind (·.get "current_period_end")).bind JsonValue.asI64).bind fromUnixTimestamp
    cancelAtPeriodEnd :=
      if kind = .deleted then false
      else ((event.object.get "cancel_at_period_end").bind JsonValue.asBool).getD false }

/-! ### The others -/

/-- The SET of `apply_checkout_session_completed`. -/
def applyCheckoutSessionCompleted (t : BillingTeam) : BillingTeam :=
  { t with
    billingPlan := (parsePlanId (metadataString event.object "plan")).getD t.billingPlan
    stripeCustomerId := (toObjectId (event.object.get "customer")).or t.stripeCustomerId
    stripeSubscriptionId := (toObjectId (event.object.get "subscription")).or t.stripeSubscriptionId }

/-- The SET that an event's handler runs. -/
def write (config : StripeConfig) (kind : StripeEventKind) (read : BillingPlan) (t : BillingTeam) : BillingTeam :=
  match kind with
  | .checkoutSessionCompleted => event.applyCheckoutSessionCompleted t
  | .subscription kind => event.applySubscriptionUpdate config kind read t
  | .invoice billingStatus => { t with billingStatus }

theorem write_id (config : StripeConfig) (kind : StripeEventKind) (read : BillingPlan) (t : BillingTeam) :
    (event.write config kind read t).id = t.id := by
  cases kind <;> rfl

end StripeEvent

/-! ## Requests -/

/-- The statement that a delivery runs next. -/
inductive DeliveryAwait
  | select (key : TeamKey) (rest : List TeamKey)
  /-- The row that a SELECT has found. -/
  | update (teamId : String) (billingPlan : BillingPlan)
deriving DecidableEq, Repr

structure Delivery where
  event : StripeEvent
  kind : StripeEventKind
  await : DeliveryAwait

/-- What a checkout does next. -/
inductive CheckoutAwait
  | createCustomer
  | persistCustomer (customerId : String)
  | createSession
  | update
deriving DecidableEq, Repr

structure Checkout where
  teamId : String
  targetPlan : BillingPlan
  await : CheckoutAwait
deriving DecidableEq, Repr

/-- What has happened. -/
inductive BillingFact
  /-- A delivery has come to its end; the team that its UPDATE has written, and which it was. -/
  | applied (event : StripeEvent) (written : Option (String × StripeEventKind))
  /-- A delivery found its event in the log. -/
  | duplicate (event : StripeEvent)
  /-- A delivery has ended between its row of the log and its end. -/
  | lost (event : StripeEvent)
  /-- A checkout has written its plan to the team. -/
  | checkout (teamId : String)

/-- The team that something has been written to. -/
def BillingFact.teamId : BillingFact → Option String
  | .applied _ written => written.map Prod.fst
  | .checkout teamId => some teamId
  | .duplicate _ | .lost _ => none

structure BillingState where
  teams : BillingTeams := .empty
  stripeEventLog : List String := []
  deliveries : List Delivery := []
  checkouts : List Checkout := []
  history : List BillingFact := []

/-- Who asks for a checkout: the columns of the user's row. -/
structure BillingActor where
  teamId : Option String
  role : TeamRole
deriving DecidableEq, Repr

inductive BillingLabel
  | createTeam (team : BillingTeam)
  | deleteTeam (id : String)
  /-- A delivery runs its first statement, the row of the log. -/
  | deliver (event : StripeEvent)
  /-- Its first statement fails. -/
  | refuse (event : StripeEvent)
  /-- A delivery runs its next statement. -/
  | proceed (i : Nat)
  /-- The next statement of a delivery fails. -/
  | fail (i : Nat)
  /-- A checkout is asked for. -/
  | startCheckout (actor : BillingActor) (plan : Option BillingPlan)
  /-- A checkout goes on; the gateway's answer. -/
  | resumeCheckout (i : Nat) (answer : Option String)
  | abandonCheckout (i : Nat)
  | crash

/-! ## Steps -/

namespace BillingState

variable (config : StripeConfig) (s : BillingState)

/-- A delivery goes on with the SELECTs that are left; it ends when none is. -/
def search (event : StripeEvent) (kind : StripeEventKind) : List TeamKey → BillingState
  | [] => { s with history := .applied event none :: s.history }
  | key :: rest => { s with deliveries := s.deliveries ++ [⟨event, kind, .select key rest⟩] }

/-- `insert_event_log`, and the rest up to the next statement. -/
def deliver (event : StripeEvent) : BillingState :=
  if event.id ∈ s.stripeEventLog then { s with history := .duplicate event :: s.history }
  else
    let s := { s with stripeEventLog := event.id :: s.stripeEventLog }
    match event.handler with
    | none => { s with history := .applied event none :: s.history }
    | some kind => s.search event kind event.keys

/-- A SELECT has found a team: `apply_invoice_status` leaves one on the free plan alone. -/
def found (event : StripeEvent) (kind : StripeEventKind) (t : BillingTeam) : BillingState :=
  match kind with
  | .invoice _ =>
    if t.billingPlan.isPaid then { s with deliveries := s.deliveries ++ [⟨event, kind, .update t.id t.billingPlan⟩] }
    else { s with history := .applied event none :: s.history }
  | _ => { s with deliveries := s.deliveries ++ [⟨event, kind, .update t.id t.billingPlan⟩] }

/-- The next statement of a delivery that is no longer in the list. -/
def resume (d : Delivery) : BillingState :=
  match d.await with
  | .select key rest =>
    match (s.teams.select key.matches).head? with
    | some t => s.found d.event d.kind t
    | none => s.search d.event d.kind rest
  | .update teamId billingPlan =>
    match s.teams.update teamId (d.event.write config d.kind billingPlan) (d.event.write_id config d.kind billingPlan) with
    | none => { s with history := .lost d.event :: s.history }
    | some teams =>
      { s with teams, history := .applied d.event ((s.teams.get? teamId).map fun r => (r.id, d.kind)) :: s.history }

/-- The UPDATE of a delivery meets the unique constraints. -/
def UpdateHolds (config : StripeConfig) (s : BillingState) (d : Delivery) : Prop :=
  match d.await with
  | .select _ _ => True
  | .update teamId billingPlan =>
    (s.teams.update teamId (d.event.write config d.kind billingPlan) (d.event.write_id config d.kind billingPlan)).isSome

instance (config : StripeConfig) (s : BillingState) (d : Delivery) : Decidable (s.UpdateHolds config d) := by
  unfold UpdateHolds
  split <;> infer_instance

end BillingState

def getStripePriceId (config : StripeConfig) : BillingPlan → Option String
  | .personal => config.personalMonthlyPriceId
  | .family => config.familyMonthlyPriceId
  | .team => config.teamSeatMonthlyPriceId
  | .free => none

/-- The text of an enum, as the messages have it. -/
def BillingPlan.asStr : BillingPlan → String
  | .free => "free"
  | .personal => "personal"
  | .family => "family"
  | .team => "team"

/-- `create_checkout_session` up to its first call of the gateway. -/
def beginCheckout (config : StripeConfig) (teams : BillingTeams) (actor : BillingActor) (plan : Option BillingPlan) :
    Except AppError Checkout := do
  let some teamId := actor.teamId | throw (.notFound "Team not found")
  let some team := teams.get? teamId | throw (.notFound "Team not found")
  if ¬ actor.role.canManage then throw (.forbidden "Only team owner or admin can manage billing")
  let targetPlan := plan.getD team.billingPlan
  if ¬ targetPlan.isPaid then throw (.badRequest "Free plan does not require checkout")
  if team.stripeSubscriptionId.isSome ∧ team.billingStatus.isActive ∧ team.billingPlan = targetPlan then
    throw (.badRequest "Subscription is already active for this plan")
  if (getStripePriceId config targetPlan).isNone then
    throw (.internal ("Missing Stripe price ID for " ++ targetPlan.asStr ++ " plan"))
  pure ⟨teamId, targetPlan, if team.stripeCustomerId.isSome then .createSession else .createCustomer⟩

namespace BillingState

variable (config : StripeConfig) (s : BillingState)

/-- What a checkout does with the gateway's answer, when it is no longer in the list. -/
def resumeCheckout (c : Checkout) (answer : Option String) : BillingState :=
  match c.await with
  | .createCustomer =>
    match answer with
    | none => s
    | some customerId => { s with checkouts := s.checkouts ++ [{ c with await := .persistCustomer customerId }] }
  | .persistCustomer customerId =>
    match s.teams.update c.teamId (fun t => { t with stripeCustomerId := some customerId }) (fun _ => rfl) with
    | none => s
    | some teams => { s with teams, checkouts := s.checkouts ++ [{ c with await := .createSession }] }
  | .createSession =>
    -- The answer is the URL to which the user is sent.
    if answer.isSome then { s with checkouts := s.checkouts ++ [{ c with await := .update }] } else s
  | .update =>
    match s.teams.update c.teamId
      (fun t => { t with billingPlan := c.targetPlan, billingStatus := .incomplete }) (fun _ => rfl) with
    | none => s
    | some teams =>
      { s with teams, history := if (s.teams.get? c.teamId).isSome then .checkout c.teamId :: s.history else s.history }

def step : BillingLabel → Option BillingState
  | .createTeam team =>
    -- The id is a random one, so that nothing has been written to it.
    if team.stripeCustomerId = none ∧ team.stripeSubscriptionId = none ∧
        s.history.all (fun f => f.teamId ≠ some team.id) then
      (s.teams.insert team).map fun teams => { s with teams }
    else none
  | .deleteTeam id => some { s with teams := s.teams.deleteWhere (·.id = id) }
  | .deliver event => some (s.deliver event)
  | .refuse _ => some s
  | .proceed i => s.deliveries[i]?.map fun d => { s with deliveries := s.deliveries.eraseIdx i }.resume config d
  | .fail i =>
    s.deliveries[i]?.map fun d =>
      { s with deliveries := s.deliveries.eraseIdx i, history := .lost d.event :: s.history }
  | .startCheckout actor plan =>
    match beginCheckout config s.teams actor plan with
    | .error _ => some s
    | .ok c => some { s with checkouts := s.checkouts ++ [c] }
  | .resumeCheckout i answer =>
    s.checkouts[i]?.map fun c => { s with checkouts := s.checkouts.eraseIdx i }.resumeCheckout c answer
  | .abandonCheckout i => if i < s.checkouts.length then some { s with checkouts := s.checkouts.eraseIdx i } else none
  | .crash =>
    some { s with deliveries := [], checkouts := [], history := s.deliveries.map (.lost ·.event) ++ s.history }

end BillingState

/-- Billing, from a database without teams. -/
def billing (config : StripeConfig) : System BillingState BillingLabel where
  init s := s = {}
  step := BillingState.step config

end Bittery
