import ConcordBackend.Api.Webhooks
import ConcordBackend.Library.Decimal

/-!
# What a signature vouches for

The MAC of a notification is taken over the timestamp, a dot and the body, and the timestamp is
a decimal number, so the dot that ends it is the first one: the signed bytes determine both
(`signedContent_inj`). The body is the JSON text of the cast escrow id and the event's name. It
determines both in the same way, and the cast forgets nothing of the on-chain id.

A receiver who knows the secret recomputes the signature of what it was sent. Up to collisions
of the MAC it accepts the signature of a notification for nothing but that notification
(`signatures_unambiguous`).
-/

namespace ConcordBackend

/-! ### The signed bytes -/

/-- **The signed bytes determine the timestamp and the body.** -/
theorem signedContent_inj {t t' : Int} {body body' : List UInt8}
    (h : signedContent t body = signedContent t' body') : t = t' ∧ body = body' := by
  have hdot : utf8 "." = [0x2e] := by decide
  rw [signedContent, signedContent, hdot, List.append_assoc, List.append_assoc] at h
  exact utf8_toString_cons_inj (by decide) h

/-- The characters of the body, with the comma that ends the number. -/
theorem toList_notificationBody (e : Int64) (name : String) : (notificationBody e name).toList =
    "\x7b\"escrow_id\":".toList ++ ((toString e.toInt).toList ++
      ',' :: ("\"event\":\"".toList ++ (name.toList ++ "\"\x7d".toList))) := by
  -- for any texts in place of the literals, which the rewriting would otherwise unfold
  have happend : ∀ a x b y c : String, (a ++ x ++ b ++ y ++ c).toList =
      a.toList ++ (x.toList ++ (b.toList ++ (y.toList ++ c.toList))) := by
    intro a x b y c
    simp only [String.toList_append, List.append_assoc]
  have hcomma : ",\"event\":\"".toList = ',' :: "\"event\":\"".toList := by decide
  exact (happend ..).trans (congrArg (fun l => _ ++ (_ ++ (l ++ _))) hcomma)

/-- **The body determines the escrow id and the name.** -/
theorem notificationBody_inj {e e' : Int64} {name name' : String}
    (h : notificationBody e name = notificationBody e' name') : e = e' ∧ name = name' := by
  have hchars := congrArg String.toList h
  rw [toList_notificationBody, toList_notificationBody] at hchars
  obtain ⟨hid, hrest⟩ := toString_cons_inj (by decide) (List.append_cancel_left hchars)
  have hname := List.append_cancel_right (List.append_cancel_left hrest)
  exact ⟨Int64.toInt_inj.mp hid, String.toList_inj.mp hname⟩

/-! ### The notifications of an event -/

section Notifications

variable {E : Env} {crates : Crates} {event : RpcEvent}

/-- An event that notifies has a recognized name, and the id it notifies about is that of its
topic. -/
theorem head_of_notified {e : Int64} {name : String}
    (h : (processEvent crates event).outcome = .ok (some (e, name))) :
    ∃ head, decodeHead crates event = .ok head ∧ head.escrowId.toInt64 = e ∧ head.name = name ∧
      name ∈ recognizedNames := by
  obtain ⟨head, b, hhead, -, heq⟩ := exists_dispatched_of_ok h
  have hname : head.name ∈ recognizedNames := by
    by_contra hname
    rw [processEvent_outcome hhead, dispatch_unrecognized hname] at h
    cases h
  cases b with
  | false => cases heq
  | true =>
    obtain ⟨rfl, rfl⟩ := Prod.mk.inj (Option.some.inj heq)
    exact ⟨head, hhead, rfl, rfl, hname⟩

/-- The delivery tells a webhook of the event: its body is that of the on-chain id and the name
the event's topics decode to, and it is signed with the webhook's secret. -/
structure Tells (crates : Crates) (event : RpcEvent) (head : EventHead) (webhook : WebhookRow)
    (d : Delivery) : Prop where
  decodes : decodeHead crates event = .ok head
  recognized : head.name ∈ recognizedNames
  url : d.url = webhook.url
  body : d.body = notificationBody head.escrowId.toInt64 head.name
  signature : d.signature =
    "sha256=" ++ signWebhookPayload crates webhook.secret d.timestamp (utf8 d.body)

/-- Every delivery of an event tells a webhook of its escrow of the event. -/
theorem EventRun.tells (r : EventRun E crates) {d : Delivery} (hd : d ∈ deliveries r.trace) :
    ∃ head, ∃ webhook ∈ r.before.db.listWebhooksForEscrow head.escrowId.toInt64,
      Tells crates r.event head webhook d := by
  rcases r.runs.bind_finished_inv r.finished with ⟨err, hp, -⟩ | ⟨o, w₁, tr₁, tr₂, h₁, h₂, htr⟩
  · rw [deliveries_of_toProg hp] at hd
    cases hd
  rw [htr, deliveries_append, deliveries_of_toProg h₁, List.nil_append] at hd
  rcases o with _ | ⟨e, name⟩
  · obtain ⟨rfl, -, -⟩ := h₂.done_inv
    cases hd
  obtain ⟨-, hnone⟩ | ⟨timestamp, hall⟩ := notifyWebhooks_cases h₂ r.finished
  · rw [hnone] at hd
    cases hd
  have hsame : w₁.db.webhooks = r.before.db.webhooks := webhooks_of_runs (toProg_only _) h₁
  cases toProg_inv h₁ with
  | returned hout =>
    obtain ⟨head, hhead, rfl, rfl, hname⟩ := head_of_notified hout
    rw [hall] at hd
    obtain ⟨webhook, hmem, rfl⟩ := List.mem_map.mp hd
    rw [Db.listWebhooksForEscrow, hsame] at hmem
    exact ⟨head, webhook, hmem, hhead, hname, rfl, rfl, rfl⟩
  | running hq => exact absurd trivial hq

end Notifications

/-! ### Receivers -/

/-- What a receiver who knows the secret accepts: it recomputes the signature. -/
def Accepts (crates : Crates) (secret : String) (timestamp : Int) (body : List UInt8)
    (signature : String) : Prop :=
  signature = "sha256=" ++ signWebhookPayload crates secret timestamp body

instance (crates : Crates) (secret : String) (timestamp : Int) (body : List UInt8)
    (signature : String) : Decidable (Accepts crates secret timestamp body signature) :=
  inferInstanceAs (Decidable (signature = _))

/-- Two messages with one MAC. -/
def Collision (crates : Crates) (secret : String) (message message' : List UInt8) : Prop :=
  message ≠ message' ∧
    crates.hmacSha256 (utf8 secret) message = crates.hmacSha256 (utf8 secret) message'

/-- A signature is accepted for the bytes it was made for, or the MAC collides. -/
theorem eq_or_collision_of_accepts {crates : Crates} {secret : String} {t t' : Int}
    {body body' : List UInt8}
    (h : Accepts crates secret t body ("sha256=" ++ signWebhookPayload crates secret t' body')) :
    (t = t' ∧ body = body') ∨
      Collision crates secret (signedContent t body) (signedContent t' body') := by
  have hmac := hexEncode_inj ((String.append_right_inj _).mp h)
  by_cases hcontent : signedContent t body = signedContent t' body'
  · exact Or.inl (signedContent_inj hcontent)
  · exact Or.inr ⟨hcontent, hmac.symm⟩

/-- **Signed content is unambiguous.** The signed bytes determine the timestamp and the body,
and, where the body is a notification's, the on-chain id and the name of the event. So the
signature of a delivery is accepted, under the secret of its webhook, for no other notification
than the one the delivery was made for, unless the MAC collides. -/
theorem signatures_unambiguous {E : Env} {crates : Crates} :
    (∀ (t t' : Int) body body', signedContent t body = signedContent t' body' →
      t = t' ∧ body = body') ∧
    (∀ (t t' : Int) (e e' : UInt64), ∀ name ∈ recognizedNames, ∀ name' ∈ recognizedNames,
      signedContent t (utf8 (notificationBody e.toInt64 name)) =
        signedContent t' (utf8 (notificationBody e'.toInt64 name')) →
      t = t' ∧ e = e' ∧ name = name') ∧
    ∀ (r : EventRun E crates), ∀ d ∈ deliveries r.trace,
      ∃ head, ∃ webhook ∈ r.before.db.listWebhooksForEscrow head.escrowId.toInt64,
        Tells crates r.event head webhook d ∧
        (∀ t body, Accepts crates webhook.secret t body d.signature →
          (t = d.timestamp ∧ body = utf8 d.body) ∨ Collision crates webhook.secret
            (signedContent t body) (signedContent d.timestamp (utf8 d.body))) ∧
        ∀ (t : Int) (e : UInt64), ∀ name ∈ recognizedNames,
          Accepts crates webhook.secret t (utf8 (notificationBody e.toInt64 name)) d.signature →
          (t = d.timestamp ∧ e = head.escrowId ∧ name = head.name) ∨
            Collision crates webhook.secret
              (signedContent t (utf8 (notificationBody e.toInt64 name)))
              (signedContent d.timestamp (utf8 d.body)) := by
  have hbody : ∀ (e e' : UInt64) name name',
      utf8 (notificationBody e.toInt64 name) = utf8 (notificationBody e'.toInt64 name') →
        e = e' ∧ name = name' := by
    intro e e' name name' h
    obtain ⟨hid, hname⟩ := notificationBody_inj (utf8_inj.mp h)
    exact ⟨toInt64_inj hid, hname⟩
  refine ⟨fun t t' body body' => signedContent_inj, ?_, ?_⟩
  · intro t t' e e' name _ name' _ h
    obtain ⟨htime, h⟩ := signedContent_inj h
    exact ⟨htime, hbody e e' name name' h⟩
  · intro r d hd
    obtain ⟨head, webhook, hwebhook, htells⟩ := r.tells hd
    have haccepts : ∀ t body, Accepts crates webhook.secret t body d.signature →
        (t = d.timestamp ∧ body = utf8 d.body) ∨ Collision crates webhook.secret
          (signedContent t body) (signedContent d.timestamp (utf8 d.body)) := by
      intro t body h
      rw [htells.signature] at h
      exact eq_or_collision_of_accepts h
    refine ⟨head, webhook, hwebhook, htells, haccepts, fun t e name _ h => ?_⟩
    refine (haccepts t _ h).imp_left ?_
    rintro ⟨htime, h⟩
    rw [htells.body] at h
    exact ⟨htime, hbody e head.escrowId name head.name h⟩

/-! ### A sample delivery -/

section Sample

/-- A webhook of the client for the escrow of the sample's creation. -/
def toldWebhook : WebhookRow :=
  Drawn.row ⟨0, .replicate 32 7, 0⟩ 1 (sampleEscrow sampleContract 1).client
    "https://example.com/hook"

/-- The sample's funding tells the client's webhook. The signature is not accepted for the same
body a second later. -/
theorem signatures_unambiguous_sample :
    ∃ (r : EventRun openEnv sampleCrates) (d : Delivery) (head : EventHead) (webhook : WebhookRow),
      d ∈ deliveries r.trace ∧ Tells sampleCrates r.event head webhook d ∧
      (∀ t body, Accepts sampleCrates webhook.secret t body d.signature →
        (t = d.timestamp ∧ body = utf8 d.body) ∨ Collision sampleCrates webhook.secret
          (signedContent t body) (signedContent d.timestamp (utf8 d.body))) ∧
      ¬ Accepts sampleCrates webhook.secret (d.timestamp + 1) (utf8 d.body) d.signature := by
  have hnew : (Db.migrated.upsertEscrow 0 (sampleEscrow sampleContract 1)).webhooks.find?
      toldWebhook.id = none := rfl
  obtain ⟨db, hins⟩ := Db.exists_insertWebhook (by decide) hnew rfl
  obtain ⟨hrows, -⟩ := Db.insertWebhook_inv hins
  have hlist : db.listWebhooksForEscrow 1 = [toldWebhook] := by
    rw [Db.listWebhooksForEscrow, hrows]
    rfl
  let r : EventRun openEnv sampleCrates := ⟨_, _, _, _, _, runs_fundedEvent hlist, trivial⟩
  have hd : deliveryTo sampleCrates 0 (notificationBody 1 "escrow_funded") toldWebhook ∈
      deliveries r.trace := List.mem_singleton.mpr rfl
  obtain ⟨head, webhook, hwebhook, htells, haccepts, -⟩ := signatures_unambiguous.2.2 r _ hd
  have hhead : head = ⟨"escrow_funded", 1, .other "Void"⟩ :=
    Except.ok.inj (htells.decodes.symm.trans (decodeHead_fundedEvent ..))
  obtain rfl : webhook = toldWebhook := by
    rw [hhead] at hwebhook
    exact List.mem_singleton.mp (hlist ▸ hwebhook)
  exact ⟨r, _, head, _, hd, htells, haccepts, by decide +kernel⟩

end Sample

end ConcordBackend
