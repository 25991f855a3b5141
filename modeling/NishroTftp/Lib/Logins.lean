/-
  Logins at servers and the accounts they use.

  An ACCOUNT is a login that is meant to be made: this user and this password belong to this host
  and port.  A login that is made is CONFINED if it is anonymous or presents an account at the very
  server the account belongs to.  When two names mean the same host is a parameter.
-/
namespace Nishro.Logins

variable {α : Type}

/-- A login: where to, and as whom. -/
structure Login (α : Type) where
  host : α
  port : Int
  user : α
  password : α
deriving DecidableEq, Repr

/-- Two logins at one server. -/
def Login.SameServer (same : α → α → Prop) (k a : Login α) : Prop := same k.host a.host ∧ k.port = a.port

/-- Two logins as one user. -/
def Login.SameUser (k a : Login α) : Prop := k.user = a.user ∧ k.password = a.password

/-- `k` presents no account but at its own server. -/
def Login.Confined (same : α → α → Prop) (anonymous : Login α → Prop) (accounts : List (Login α))
    (k : Login α) : Prop :=
  anonymous k ∨ ∃ a ∈ accounts, k.SameServer same a ∧ k.SameUser a

variable {same : α → α → Prop} {anonymous : Login α → Prop}

/-- An account, used as it is meant to be. -/
theorem confined_of_mem (hsame : ∀ x, same x x) {accounts : List (Login α)} {k : Login α}
    (h : k ∈ accounts) : k.Confined same anonymous accounts :=
  .inr ⟨k, h, ⟨hsame _, rfl⟩, rfl, rfl⟩

/-- With one account, which is the one presented, all is in the server. -/
theorem confined_singleton_iff {a k : Login α} (h : k.SameUser a) :
    k.Confined same anonymous [a] ↔ anonymous k ∨ k.SameServer same a := by
  constructor
  · rintro (hk | ⟨b, hb, hserver, -⟩)
    · exact .inl hk
    · rw [List.mem_singleton] at hb
      subst hb
      exact .inr hserver
  · rintro (hk | hserver)
    · exact .inl hk
    · exact .inr ⟨a, List.mem_singleton_self a, hserver, h⟩

end Nishro.Logins
