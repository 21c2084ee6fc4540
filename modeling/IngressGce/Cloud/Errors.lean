import IngressGce.Naming.Decimal

/-! # Errors of the cloud

The functions of the source tell errors apart by the code that the cloud has answered
with. A call can fail although the cloud could have served it, and may then have taken
effect all the same.
-/
namespace IngressGce

/-- An error value of the source: a `*googleapi.Error` with its code, an error
made from a text, or a text wrapped around another error. -/
inductive GoError
  | api (code : ℕ)
  | text (msg : Str)
  | wrapped (msg : Str) (cause : GoError)
  deriving DecidableEq, Repr

/-- The text of an error. An answer of the cloud counts as one without a body. -/
def GoError.error : GoError → Str
  | .api code => "googleapi: got HTTP response code ".toList ++ Decimal.itoa code ++ " with body: ".toList
  | .text msg => msg
  | .wrapped msg cause => msg ++ cause.error

/-- What the verb `%v` prints for a list of errors. -/
def GoError.list (errs : List GoError) : Str :=
  "[".toList ++ List.intercalate " ".toList (errs.map GoError.error) ++ "]".toList

def statusNotFound : ℕ := 404
def statusConflict : ℕ := 409
def statusBadRequest : ℕ := 400

def isHTTPErrorCode : GoError → ℕ → Bool
  | .api c, code => c == code
  | .text _, _ => false
  | .wrapped _ _, _ => false

@[simp] theorem isHTTPErrorCode_api (code : ℕ) : isHTTPErrorCode (.api code) code = true := beq_self_eq_true code

theorem eq_of_isHTTPErrorCode {e : GoError} {code : ℕ} (h : isHTTPErrorCode e code = true) : e = .api code := by
  cases e with
  | api c => rw [eq_of_beq h]
  | text _ => cases h
  | wrapped _ _ => cases h

/-- A failed call: the error it returns and whether the request took effect all
the same. A not-found answer is no failure, the cloud gives it by itself and
only for a resource that is absent. -/
structure Fault where
  error : GoError
  applied : Bool
  not_notFound : isHTTPErrorCode error statusNotFound = false

end IngressGce
