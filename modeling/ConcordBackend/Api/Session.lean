import ConcordBackend.Api.Auth
import ConcordBackend.Library.Casts

/-!
# Sessions

A client that has logged in sends its token along with each request to the webhook endpoints.
`AuthUser` is the extractor that runs before their handlers: it reads the token of the
`Authorization` header, has `jsonwebtoken` check it against the clock, and takes the address
the token was issued for. A request without a token, or with one that is not accepted, is
answered before the handler has seen it.

`jsonwebtoken` grants an expired token another minute (`Validation::default`), so a token of
`issue_jwt` is accepted for 3660 seconds (`SessionCrates.jwtDecode_issued`).
-/

namespace ConcordBackend

/-- The crates of the login endpoints, with the function that reads their tokens back. -/
structure SessionCrates extends AuthCrates where
  /-- `jsonwebtoken::decode` with `Validation::default()`, under a secret and at a time; `none`
  where the call errs. -/
  jwtDecode : String → String → DateTime → Option Claims

/-- What `jsonwebtoken` accepts of its own tokens: those that have not been expired for more
than the default leeway of 60 seconds. -/
def SessionCrates.ReadsTokens (crates : SessionCrates) : Prop :=
  ∀ secret claims token now, crates.jwtEncode secret claims = some token →
    DateTime.ofSeconds 60 ≤ now →
      crates.jwtDecode secret token now =
        if now / 1000000000 ≤ (claims.exp.toNat : Int) + 60 then some claims else none

/-- `verify_jwt`. -/
def verifyJwt (crates : SessionCrates) (secret token : String) (now : DateTime) :
    Except AppError String := do
  let claims ← okOr (crates.jwtDecode secret token now) (.unauthorized "invalid or expired token")
  return claims.sub

/-- `AuthUser::from_request_parts`, for the token of the `Authorization` header. -/
def authUser (crates : SessionCrates) (jwtSecret : String) (bearer : Option String) :
    AuthM String :=
  (Prog.ofExcept (okOr bearer (.unauthorized "missing bearer token"))).bind fun token =>
    .call .utcNow fun now => Prog.ofExcept (verifyJwt crates jwtSecret token now)

variable {crates : SessionCrates} {jwtSecret token address : String} {now issuedAt : DateTime}

theorem verifyJwt_eq_ok : verifyJwt crates jwtSecret token now = .ok address ↔
    ∃ claims, crates.jwtDecode jwtSecret token now = some claims ∧ claims.sub = address := by
  simp only [verifyJwt, Except.bind_eq_ok, okOr_eq_ok]
  refine exists_congr fun claims => and_congr_right fun _ => ?_
  exact ⟨Except.ok.inj, congrArg Except.ok⟩

/-- A token is rejected with one error. -/
theorem verifyJwt_of_none (h : crates.jwtDecode jwtSecret token now = none) :
    verifyJwt crates jwtSecret token now = .error (.unauthorized "invalid or expired token") := by
  rw [verifyJwt, h]
  rfl

/-- A token expires 3600 seconds after it was issued. -/
theorem exp_jwtClaims {t : Int} (hpos : 0 ≤ t) (hmax : t ≤ 8210266876799 * 1000000000) :
    ((jwtClaims address t).exp.toNat : Int) = t / 1000000000 + 3600 := by
  have hexp : (jwtClaims address t).exp =
      (Int64.ofInt ((t + 3600 * 1000000000) / 1000000000)).toUInt64 := rfl
  rw [hexp, Int64.toNat_toUInt64_ofInt (by omega) (by omega)]
  omega

/-- **A token of `issue_jwt` is accepted for 3660 seconds**, and stands for its address. -/
theorem SessionCrates.jwtDecode_issued (hreads : crates.ReadsTokens)
    (hissue : crates.jwtEncode jwtSecret (jwtClaims address issuedAt) = some token)
    (hpos : DateTime.ofSeconds 0 ≤ issuedAt)
    (hmax : issuedAt ≤ DateTime.ofSeconds DateTime.maxSeconds)
    (hnow : DateTime.ofSeconds 60 ≤ now) :
    crates.jwtDecode jwtSecret token now =
      if now / 1000000000 ≤ issuedAt / 1000000000 + 3660 then some (jwtClaims address issuedAt)
      else none := by
  have hlast : issuedAt / 1000000000 + 3600 + 60 = issuedAt / 1000000000 + 3660 :=
    Int.add_assoc _ 3600 60
  rw [hreads jwtSecret _ token now hissue hnow, exp_jwtClaims hpos hmax, hlast]

/-- What an extraction does: nothing without a token, and otherwise it reads the clock. -/
theorem authUser_leads {bearer : Option String} {tr : AuthService.Trace} {q : AuthM String}
    (h : Leads (authUser crates jwtSecret bearer) tr q) :
    (tr = [] ∧ (q.Finished → q = .fail (.unauthorized "missing bearer token"))) ∨
      ∃ token now, bearer = some token ∧ tr = [⟨.utcNow, (now : DateTime)⟩] ∧
        q = Prog.ofExcept (verifyJwt crates jwtSecret token now) := by
  rcases bearer with _ | token
  · obtain ⟨rfl, rfl, -⟩ := Runs.fail_inv h
    exact Or.inl ⟨rfl, fun _ => rfl⟩
  · rcases Runs.call_inv h with ⟨rfl, rfl, -⟩ | ⟨now, w, tr', -, rfl, hrest⟩
    · exact Or.inl ⟨rfl, False.elim⟩
    · have hend : tr' = [] ∧ q = Prog.ofExcept (verifyJwt crates jwtSecret token now) := by
        rcases hv : verifyJwt crates jwtSecret token now with err | address
        · rw [hv] at hrest
          obtain ⟨rfl, rfl, -⟩ := Runs.fail_inv hrest
          exact ⟨rfl, rfl⟩
        · rw [hv] at hrest
          obtain ⟨rfl, rfl, -⟩ := Runs.done_inv hrest
          exact ⟨rfl, rfl⟩
      obtain ⟨rfl, rfl⟩ := hend
      exact Or.inr ⟨token, now, rfl, rfl, rfl⟩

end ConcordBackend
