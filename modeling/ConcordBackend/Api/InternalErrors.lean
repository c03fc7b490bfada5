import ConcordBackend.Api.Failures

/-!
# Internal errors

A request is answered 500 exactly where the connection failed one of its statements, the id
drawn for a new webhook was taken, its token could not be encoded, or the client has sent a text
that PostgreSQL refuses and no check of the handlers does: a url or a filter with U+0000 in it.
It is told nothing of which (`internal_error_iff`). No request breaks a foreign key: a webhook is
inserted after its escrow was read, and no escrow is ever removed (`insert_not_foreignKey`).
-/

namespace ConcordBackend

variable {crates : SessionCrates} {indexer : Crates} {jwtSecret : String}

/-- The connection failed a list query. -/
def FailedList : Sigma Listing.Reply → Prop
  | ⟨.escrows _, .error .transient⟩ => True
  | ⟨.disputes _ _ _, .error .transient⟩ => True
  | _ => False

/-- The texts a request filters by can be bound. -/
def ListEscrowsQuery.Bindable (query : ListEscrowsQuery) : Prop :=
  ∀ text ∈ query.client.toList ++ query.provider.toList, storable text = true

/-- A statement was bound a text of the client's with U+0000 in it: the url of a webhook, or the
client or the provider of a filter. -/
def Job.BindsNul : Job → Sigma Backend.Reply → Prop
  | .webhook _ (.ok (.register _ req _)), ⟨.inr (.inl (.sql (.insertWebhook _))), _⟩ =>
    storable req.url = false
  | .escrows (.ok query), ⟨.inr (.inr (.escrows _)), _⟩ => ¬ query.Bindable
  | _, _ => False

/-- What an internal error comes from: the connection failed a statement, the id drawn for a new
webhook is taken, the token of a login could not be encoded, or a text holds U+0000. -/
def Job.Breaks (crates : SessionCrates) (jwtSecret : String) (job : Job) :
    Sigma Backend.Reply → Prop
  | ⟨.inl op, r⟩ =>
    ∃ req, job = .auth (.ok req) ∧ Unissued crates.toAuthCrates jwtSecret req ⟨op, r⟩
  | ⟨.inr (.inl op), r⟩ =>
    failedBy ⟨op, r⟩ = true ∨ Collides ⟨op, r⟩ ∨ job.BindsNul ⟨.inr (.inl op), r⟩
  | ⟨.inr (.inr op), r⟩ => FailedList ⟨op, r⟩ ∨ job.BindsNul ⟨.inr (.inr op), r⟩

/-! ### What the list queries are bound -/

theorem Job.Lists.escrows_inv {job : Job} {filter : EscrowFilter}
    (h : job.Lists (.escrows filter)) :
    ∃ query, job = .escrows (.ok query) ∧ escrowFilter query = .ok filter := by
  unfold Job.Lists at h
  split at h
  next query _ heq =>
    cases heq
    exact ⟨query, rfl, h⟩
  next heq => cases heq
  next => exact h.elim

theorem Job.Lists.disputes_inv {job : Job} {status : Option String} {limit offset : Int}
    (h : job.Lists (.disputes status limit offset)) :
    ∃ query, job = .disputes (.ok query) ∧ disputeStatus query = .ok status := by
  unfold Job.Lists at h
  split at h
  next heq => cases heq
  next query _ _ _ heq =>
    cases heq
    exact ⟨query, rfl, h⟩
  next => exact h.elim

/-- The texts of the statuses can be bound. -/
theorem EscrowStatus.storable_asStr (status : EscrowStatus) : storable status.asStr = true := by
  cases status <;> rfl

@[inherit_doc EscrowStatus.storable_asStr]
theorem DisputeStatus.storable_asStr (status : DisputeStatus) : storable status.asStr = true := by
  cases status <;> rfl

/-- The filter of a request is bound its client, its provider and a status that was parsed. -/
theorem bindable_escrows {query : ListEscrowsQuery} {filter : EscrowFilter}
    (h : escrowFilter query = .ok filter) : (ListOp.escrows filter).Bindable ↔ query.Bindable := by
  obtain ⟨status, hstatus, h⟩ := Except.bind_eq_ok.mp h
  obtain rfl := Except.ok.inj h
  have hparsed : ∀ text ∈ status.toList, storable text = true := by
    unfold escrowStatus at hstatus
    split at hstatus
    · obtain rfl := Except.ok.inj hstatus
      exact fun text htext => by cases htext
    · split at hstatus
      · obtain rfl := Except.ok.inj hstatus
        exact fun text htext => List.mem_singleton.mp htext ▸ EscrowStatus.storable_asStr _
      · cases hstatus
  constructor
  · exact fun h text htext => h text (List.mem_append_left _ htext)
  · intro h text htext
    rcases List.mem_append.mp htext with htext | htext
    · exact h text htext
    · exact hparsed text htext

/-- A list of disputes is bound a status that was parsed, if any. -/
theorem bindable_disputes {query : ListDisputesQuery} {status : Option String}
    (h : disputeStatus query = .ok status) (limit offset : Int) :
    (ListOp.disputes status limit offset).Bindable := by
  unfold disputeStatus at h
  split at h
  · obtain rfl := Except.ok.inj h
    exact fun text htext => List.mem_singleton.mp htext ▸ DisputeStatus.storable_asStr _
  · obtain rfl := Except.ok.inj h
    exact fun text htext => by cases htext
  · split at h
    · obtain rfl := Except.ok.inj h
      exact fun text htext => List.mem_singleton.mp htext ▸ DisputeStatus.storable_asStr _
    · cases h

/-! ### Foreign keys -/

/-- An escrow that has been read is there from then on. -/
theorem escrow_of_read {E : Env} {w w' : World E} {tr : Service.Trace} {e : Int64}
    {escrow : EscrowRow} (h : Answers E.unordered w tr w')
    (hmem : ⟨.sql (.getEscrow e), .ok (some escrow)⟩ ∈ tr) :
    (w'.db.escrows.find? e).isSome = true := by
  obtain ⟨past, future, rfl⟩ := List.append_of_mem hmem
  obtain ⟨w₁, w₂, -, hread, hfuture⟩ := h.split
  have hfound : (w₂.db.view.escrow e).isSome = true := by
    obtain ⟨now, hexec⟩ := hread.1.ok_inv
    obtain ⟨hescrow, hdb⟩ := Prod.mk.inj (Except.ok.inj hexec)
    have hsome : w₁.db.escrows.find? e = some escrow := hescrow
    have hview : w₂.db.view.escrow e = (w₁.db.escrows.find? e).map EscrowRow.unclocked := by
      rw [← hdb]
      rfl
    rw [hview, hsome]
    rfl
  rw [← Option.isSome_map (f := EscrowRow.unclocked)]
  refine hfuture.invariant (I := fun w => (w.db.view.escrow e).isSome = true)
    (fun op w r w' hop hw => ?_) hfound
  obtain ⟨r₀, h₀⟩ := exists_handler_of_unordered hop
  obtain ⟨row, hrow⟩ := Option.isSome_iff_exists.mp hw
  obtain ⟨row', hrow', -⟩ := (handler_extends h₀).escrow e row hrow
  exact Option.isSome_iff_exists.mpr ⟨row', hrow'⟩

/-- A webhook is only inserted where its escrow is. -/
theorem insert_not_foreignKey {E : Env} {world world' : AuthWorld × World E}
    {hist : Backend.History} {ts : List (Job × BackendM JobResult)}
    (h : Serves E.backend (Job.serve crates indexer jwtSecret) world hist ts world') {i : ℕ}
    {webhook : WebhookRow} {e : SqlError}
    (hmem : (i, ⟨.sql (.insertWebhook webhook), .error e⟩) ∈ serviceOf hist) :
    e ≠ .foreignKey := by
  rintro rfl
  obtain ⟨job, q, hi, hissues⟩ := issues_of_mem h hmem
  obtain ⟨bearer, req, rfl⟩ := hissues.of_owner rfl
  obtain ⟨-, -, claims, req', p, -, -, -, -, -, hp⟩ := webhook_leads_service (h.leads hi) hmem
  obtain ⟨-, -, escrow, -, htr⟩ := registered_leads hp (Signature.History.mem_of.mpr hmem)
  -- the request has read the escrow before it inserts the webhook
  rw [← List.singleton_append] at htr
  obtain ⟨past, future, hpast, hbefore, -⟩ := Signature.History.exists_split htr
  have hread := Signature.History.mem_of.mp (hbefore ▸ List.mem_singleton_self _)
  have hanswers := service_of_serves h
  rw [hpast, Signature.History.trace, List.map_append, List.map_cons] at hanswers
  obtain ⟨w₁, w₂, hfirst, hinsert, -⟩ := hanswers.split
  have hescrow := escrow_of_read hfirst (List.mem_map_of_mem hread)
  rcases hinsert.1.error_inv.2 with ⟨now, hexec⟩ | ⟨-, hne⟩
  · rcases Db.insertWebhook_error (insertWebhook_of_rejected hexec) with
      ⟨hne, -⟩ | hne | ⟨-, -, hnone⟩
    · cases hne
    · cases hne
    · exact hnone hescrow
  · cases hne

/-- A statement that fails, fails also where its rows come in order. -/
theorem sqlStep_of_unordered {E : Env} {q : Query} {e : SqlError} {w w' : World E}
    (h : E.unordered (.sql q) w (.error e) w') : SqlStep E.faulty q w.db (.error e) w'.db := by
  cases q with
  | listWebhooksForEscrow =>
    obtain ⟨r₀ | rows, h₀, hr⟩ := h
    · obtain rfl := Except.error.inj hr
      exact h₀.1
    · obtain ⟨rows', heq, -⟩ := hr
      cases heq
  | _ => exact h.1

/-- A statement without constraints to break is only failed by the connection. -/
theorem failedBy_of_error {faulty : Query → Prop} {q : Query} {db db' : Db} {e : SqlError}
    (hq : ∀ now, ∃ x, q.exec now db = .ok x) (h : SqlStep faulty q db (.error e) db') :
    failedBy ⟨.sql q, .error e⟩ = true := by
  rcases h.error_inv.2 with ⟨now, hexec⟩ | ⟨-, rfl⟩
  · obtain ⟨x, hx⟩ := hq now
    cases hexec.symm.trans hx
  · rfl

/-- An answer of a run was given by the statement it is the answer of. -/
theorem exists_unordered {E : Env} {world world' : AuthWorld × World E} {hist : Backend.History}
    {ts : List (Job × BackendM JobResult)}
    (h : Serves E.backend (Job.serve crates indexer jwtSecret) world hist ts world') {i : ℕ}
    {op : ServiceOp} {r : op.Reply} (hmem : (i, ⟨op, r⟩) ∈ serviceOf hist) :
    ∃ w w', E.unordered op w r w' :=
  (service_of_serves h).exists_step (List.mem_map_of_mem (f := Prod.snd) hmem)

/-- A statement of the webhook endpoints that is bound a text of the client's inserts a webhook. -/
theorem Job.BindsNul.insert {job : Job} {op : ServiceOp} {r : op.Reply}
    (h : job.BindsNul ⟨.inr (.inl op), r⟩) : ∃ webhook, op = .sql (.insertWebhook webhook) := by
  unfold Job.BindsNul at h
  split at h
  next heq =>
    cases heq
    exact ⟨_, rfl⟩
  next heq => cases heq
  next => exact h.elim

theorem insert_of_collides {op : ServiceOp} {r : op.Reply} (h : Collides ⟨op, r⟩) :
    ∃ webhook, op = .sql (.insertWebhook webhook) := by
  unfold Collides at h
  split at h
  next heq =>
    cases heq
    exact ⟨_, rfl⟩
  next => exact h.elim

/-- A statement without constraints to break fails where the connection fails it. -/
theorem refused_iff_failedBy {E : Env} {q : Query} {r : Except SqlError q.Reply} {w w' : World E}
    (hq : ∀ now, ∃ x, q.exec now w.db = .ok x) (h : E.unordered (.sql q) w r w') :
    Refused ⟨.sql q, r⟩ ↔ failedBy ⟨.sql q, r⟩ = true := by
  rcases r with e | a
  · exact iff_of_true trivial (failedBy_of_error hq (sqlStep_of_unordered h))
  · exact iff_of_false id (by rintro ⟨⟩)

/-- A registration inserts the url the client has sent. -/
theorem bindsNul_insert {hist : Backend.History} {i : ℕ} {job : Job} {q : BackendM JobResult}
    (h : Leads (Job.serve crates indexer jwtSecret job) (hist.of i) q) {webhook : WebhookRow}
    {r : Except SqlError WebhookRow} (hissues : job.Issues (.sql (.insertWebhook webhook)))
    (hmem : (i, ⟨.sql (.insertWebhook webhook), r⟩) ∈ serviceOf hist) :
    job.BindsNul ⟨.inr (.inl (.sql (.insertWebhook webhook))), r⟩ ↔
      storable webhook.url = false := by
  obtain ⟨bearer, req, rfl⟩ := hissues.of_owner rfl
  obtain ⟨-, -, claims, req', p, -, rfl, -, -, -, hp⟩ := webhook_leads_service h hmem
  obtain ⟨⟨e, req, drawn, rfl, rfl⟩, -⟩ :=
    registered_leads hp (Signature.History.mem_of.mpr hmem)
  exact Iff.rfl

/-- What goes wrong with a statement of a request. -/
theorem refused_iff {E : Env} {world world' : AuthWorld × World E} {hist : Backend.History}
    {ts : List (Job × BackendM JobResult)}
    (h : Serves E.backend (Job.serve crates indexer jwtSecret) world hist ts world') {i : ℕ}
    {job : Job} {q : BackendM JobResult} (hi : ts[i]? = some (job, q)) (hjob : job.IsRequest)
    {op : ServiceOp} {r : op.Reply} (hmem : (i, ⟨op, r⟩) ∈ serviceOf hist) :
    Refused ⟨op, r⟩ ↔
      failedBy ⟨op, r⟩ = true ∨ Collides ⟨op, r⟩ ∨ job.BindsNul ⟨.inr (.inl op), r⟩ := by
  obtain ⟨job', q', hi', hissues⟩ := issues_of_mem h hmem
  obtain ⟨rfl, rfl⟩ := Prod.mk.inj (Option.some.inj (hi.symm.trans hi'))
  obtain ⟨w, w', hstep⟩ := exists_unordered h hmem
  by_cases hinsert : ∃ webhook, op = .sql (.insertWebhook webhook)
  · obtain ⟨webhook, rfl⟩ := hinsert
    rw [bindsNul_insert (h.leads hi) hissues hmem]
    rcases r with e | inserted
    · refine iff_of_true trivial ?_
      rcases hstep.1.error_inv.2 with ⟨now, hexec⟩ | ⟨-, rfl⟩
      · rcases Db.insertWebhook_error (insertWebhook_of_rejected hexec) with
          ⟨-, hurl⟩ | rfl | ⟨rfl, -⟩
        · exact Or.inr (Or.inr hurl)
        · exact Or.inr (Or.inl trivial)
        · exact absurd rfl (insert_not_foreignKey h hmem)
      · exact Or.inl rfl
    · refine iff_of_false id ?_
      have hurl := (Db.insertWebhook_escrow (insertWebhook_of_ok hstep.1).2).1
      rintro (⟨⟨⟩⟩ | ⟨⟨⟩⟩ | hnul)
      cases hurl.symm.trans hnul
  · -- the other statements of a request have no constraint to break
    have hnul : ¬ job.BindsNul ⟨.inr (.inl op), r⟩ := fun hnul => hinsert hnul.insert
    have hfree : ¬ Collides ⟨op, r⟩ := fun hcollides => hinsert (insert_of_collides hcollides)
    rw [or_iff_left hnul, or_iff_left hfree]
    rcases hissues.of_request hjob with hop | hop
    · cases hop with
      | _ => exact refused_iff_failedBy (fun _ => ⟨_, rfl⟩) hstep
    · cases hop with
      | insert webhook => exact absurd ⟨webhook, rfl⟩ hinsert
      | _ => exact refused_iff_failedBy (fun _ => ⟨_, rfl⟩) hstep

/-- What goes wrong with a list query of a request. -/
theorem refusedList_iff {E : Env} {world world' : AuthWorld × World E} {hist : Backend.History}
    {ts : List (Job × BackendM JobResult)}
    (h : Serves E.backend (Job.serve crates indexer jwtSecret) world hist ts world') {i : ℕ}
    {job : Job} {q : BackendM JobResult} (hi : ts[i]? = some (job, q)) {op : ListOp} {r : op.Reply}
    (hmem : ⟨.inr (.inr op), r⟩ ∈ hist.of i) :
    RefusedList ⟨op, r⟩ ↔ FailedList ⟨op, r⟩ ∨ job.BindsNul ⟨.inr (.inr op), r⟩ := by
  have hlists : job.Lists op := (h.leads hi).only (job_only job) _ hmem
  obtain ⟨w, w', hop, -⟩ := h.answers.exists_step
    (List.mem_map_of_mem (f := Prod.snd) (Signature.History.mem_of.mp hmem))
  cases op with
  | escrows filter =>
    obtain ⟨query, rfl, hfilter⟩ := hlists.escrows_inv
    have hnul : Job.BindsNul (.escrows (.ok query)) ⟨.inr (.inr (.escrows filter)), r⟩ ↔
        ¬ (ListOp.escrows filter).Bindable := not_congr (bindable_escrows hfilter).symm
    rw [hnul]
    rcases r with e | page
    · refine iff_of_true trivial ?_
      rcases hop.2 with rfl | ⟨-, hbound⟩
      · exact Or.inl trivial
      · exact Or.inr hbound
    · exact iff_of_false id (not_or_intro id (not_not_intro hop.2.1))
  | disputes status limit offset =>
    obtain ⟨query, rfl, hstatus⟩ := hlists.disputes_inv
    have hbound := bindable_disputes hstatus limit offset
    rcases r with e | page
    · refine iff_of_true trivial ?_
      rcases hop.2 with rfl | ⟨-, hnot⟩
      · exact Or.inl trivial
      · exact absurd hbound hnot
    · exact iff_of_false id (not_or_intro id id)

/-- What goes wrong in a run is one of four things. -/
theorem fault_iff_breaks {E : Env} {world world' : AuthWorld × World E} {hist : Backend.History}
    {ts : List (Job × BackendM JobResult)}
    (h : Serves E.backend (Job.serve crates indexer jwtSecret) world hist ts world') {i : ℕ}
    {job : Job} {q : BackendM JobResult} (hi : ts[i]? = some (job, q)) (hjob : job.IsRequest)
    {x : Sigma Backend.Reply} (hx : x ∈ hist.of i) :
    job.Fault crates jwtSecret x ↔ job.Breaks crates jwtSecret x := by
  obtain ⟨op | op | op, r⟩ := x
  · exact Iff.rfl
  · have hmem : (i, ⟨op, r⟩) ∈ serviceOf hist :=
      Signature.History.mem_left.mpr
        (Signature.History.mem_right.mpr (Signature.History.mem_of.mp hx))
    exact refused_iff h hi hjob hmem
  · exact refusedList_iff h hi hx

/-- What a handler has returned is answered 200. -/
theorem JobResult.status_of_respond {texts : TextCrates} {a : JobResult} {resp : Response}
    (h : a.respond texts = some resp) (ha : ∀ rejection, a ≠ .rejected rejection) :
    resp.status = 200 := by
  cases a with
  | rejected rejection => exact absurd rfl (ha rejection)
  | polled => cases h
  | auth result =>
    cases result with
    | _ => exact (congrArg Response.status (Option.some.inj h)).symm
  | webhook result =>
    cases result with
    | _ => exact (congrArg Response.status (Option.some.inj h)).symm
  | _ => exact (congrArg Response.status (Option.some.inj h)).symm

/-- The client is told nothing of an internal error. -/
theorem AppError.IsInternal.intoResponse_eq {e : AppError} (h : e.IsInternal) :
    e.intoResponse = AppError.internal.intoResponse := by
  cases e with
  | database => rfl
  | internal => rfl
  | _ => cases h

/-- **When a request is answered 500.** A request that no extractor has rejected is answered 500
exactly where the connection failed one of its statements, the id drawn for its webhook was
taken, its token could not be encoded, or a statement was bound its url or filter with U+0000 in
it, and then the response says nothing else. -/
theorem internal_error_iff (texts : TextCrates) {E : Env} {world world' : AuthWorld × World E}
    {hist : Backend.History} {ts : List (Job × BackendM JobResult)}
    (h : Serves E.backend (Job.serve crates indexer jwtSecret) world hist ts world') {i : ℕ}
    {job : Job} {q : BackendM JobResult} {resp : Response} (hi : ts[i]? = some (job, q))
    (hjob : job.IsRequest) (hresp : respond texts q = some resp)
    (haccepted : ∀ rejection, q ≠ .done (.rejected rejection)) :
    (resp.status = 500 ↔ ∃ x ∈ hist.of i, job.Breaks crates jwtSecret x) ∧
      (resp.status = 500 → resp = AppError.internal.intoResponse) := by
  have hfin : q.Finished := by
    cases q with
    | done => trivial
    | fail => trivial
    | call => cases hresp
  have hstatus : resp.status = 500 ↔ ∃ e, q = .fail e ∧ e.IsInternal := by
    cases q with
    | done a =>
      have hok := JobResult.status_of_respond hresp fun rejection ha =>
        haccepted rejection (congrArg Prog.done ha)
      rw [hok]
      exact iff_of_false (by decide) (by rintro ⟨e, ⟨⟩, -⟩)
    | fail e =>
      obtain rfl := Option.some.inj hresp
      refine ⟨fun h => ⟨e, rfl, h⟩, ?_⟩
      rintro ⟨e', heq, h⟩
      obtain rfl := Prog.fail.inj heq
      exact h
    | call => cases hresp
  constructor
  · rw [hstatus, (job_closes hjob).fault_iff (h.leads hi) hfin]
    exact exists_congr fun x => and_congr_right fun hx => fault_iff_breaks h hi hjob hx
  · intro h500
    obtain ⟨e, rfl, he⟩ := hstatus.mp h500
    exact (Option.some.inj hresp).symm.trans he.intoResponse_eq

/-- In the sample a request whose statement the connection failed and one that filters by a text
with U+0000 are answered 500, and the request around them is not. -/
theorem internal_error_iff_sample :
    ∃ (poll : BackendM JobResult) (detail : EscrowDetail),
      Serves sampleFeed.env.backend (Job.serve sampleSession sampleCrates "secret") busyWorld
        busyHistory (busyJobs poll detail) busyWorld ∧
      (∃ x ∈ Signature.History.of busyHistory 1,
        Job.Breaks sampleSession "secret" (.escrow (.ok 1)) x) ∧
      (∃ x ∈ Signature.History.of busyHistory 3,
        Job.Breaks sampleSession "secret" (.escrows (.ok nulQuery)) x) ∧
      ¬ ∃ x ∈ Signature.History.of busyHistory 2,
        Job.Breaks sampleSession "secret" (.escrow (.ok 1)) x := by
  obtain ⟨poll, detail, h⟩ := exists_busy
  have hfault := internal_error_iff sampleTexts h (i := 1) rfl trivial rfl (by rintro _ ⟨⟩)
  have hnul := internal_error_iff sampleTexts h (i := 3) rfl trivial rfl (by rintro _ ⟨⟩)
  have hdone := internal_error_iff sampleTexts h (i := 2) rfl trivial rfl (by rintro _ ⟨⟩)
  refine ⟨poll, detail, h, hfault.1.mp rfl, hnul.1.mp rfl, fun hbreaks => ?_⟩
  cases hdone.1.mpr hbreaks

end ConcordBackend
