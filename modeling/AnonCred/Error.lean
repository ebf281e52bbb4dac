/-!
# Refusals

Every call that can be refused answers with an `Error`. A constructor names the kind of the
refusal and carries its cause; the wording of all of them is in `Error.message` and nowhere else.

A `Fault` is something different: a call outside the domain of an operation of arithmetic, such as
a remainder without a modulus. No message of a protocol can lead to one.
-/

namespace AnonCred

/-! ## Faults -/

/-- A call outside the domain of an arithmetic operation. -/
inductive Fault
  | noModulus
  | notInvertible
deriving DecidableEq, Repr

/-! ## Causes -/

/-- Why parameters of a group, a text that names one, or a setting are refused. -/
inductive ParamCause
  | zeroModulus
  | evenModulus
  | modulusNotOddPrime
  | orderNotDivisor
  | generatorOutOfRange
  | generatorOrder
  | orderTooSmall (bits : Nat)
  | safePrimesTooSmall (bits : Nat)
  | badBitSize (text : String)
  | unknownGroup (text : String)
  | unknownMode (text : String)
  | emptySessionKeys
deriving DecidableEq, Repr

/-- Why an exponent is refused. -/
inductive ScalarCause
  | notReduced (what : String)
  | zeroGamma
deriving DecidableEq, Repr

/-- Why a value is refused as an element of the group. -/
inductive ElementCause
  | isIdentity (what : String)
  | outsideModulus
  | outsideSubgroup
  | notUnit
  | notResidue
  | coordinateTooWide
  | offCurve (curve : String)
deriving DecidableEq, Repr

/-- Why a call does not fit the session it is made on. -/
inductive ProtocolCause
  | outOfOrder (expected state : String)
  | openingInSigma
deriving DecidableEq, Repr

/-- Which proof was not accepted. -/
inductive ProofCause
  | masterPseudonym
  | pseudonymAuthentication
  | pseudonymRegistration
  | issuerProof
  | inconsistentTranscripts
deriving DecidableEq, Repr

/-- Why a signature is refused. -/
inductive SignatureCause
  | scalarTooWide
  | invalid
deriving DecidableEq, Repr

/-- Why a party that the protocol relies on did not do its part. -/
inductive CollaboratorCause
  | noKeys (organization : String)
  | failed (text : String)
deriving DecidableEq, Repr

/-! ## Errors and their wording -/

/-- A refusal: its kind and its cause. -/
inductive Error
  | params (cause : ParamCause)
  | scalar (cause : ScalarCause)
  | element (cause : ElementCause)
  | protocol (cause : ProtocolCause)
  | decommitment
  | verification (cause : ProofCause)
  | signature (cause : SignatureCause)
  | registrationDenied
  | collaborator (cause : CollaboratorCause)
deriving DecidableEq, Repr

def ParamCause.message : ParamCause → String
  | .zeroModulus => "modulus cannot be zero"
  | .evenModulus => "modulus must be odd"
  | .modulusNotOddPrime => "modulus must be an odd prime"
  | .orderNotDivisor => "q must divide p - 1"
  | .generatorOutOfRange => "generator must lie in (1, p)"
  | .generatorOrder => "generator order does not divide q"
  | .orderTooSmall bits => s!"order of {bits} bits is too small"
  | .safePrimesTooSmall bits => s!"safe primes of {bits} bits are too small"
  | .badBitSize text => s!"invalid bit size in '{text}'"
  | .unknownGroup text => s!"unknown group '{text}'"
  | .unknownMode text => s!"unknown challenge mode '{text}'"
  | .emptySessionKeys => "session keys must not be empty"

def ScalarCause.message : ScalarCause → String
  | .notReduced what => s!"{what} must be smaller than the group order"
  | .zeroGamma => "gamma must not be zero"

def ElementCause.message : ElementCause → String
  | .isIdentity what => s!"{what} must not be the identity"
  | .outsideModulus => "element must lie in [1, P)"
  | .outsideSubgroup => "element is not in the order-Q subgroup"
  | .notUnit => "element must be a unit modulo N"
  | .notResidue => "element is not a quadratic residue"
  | .coordinateTooWide => "coordinate does not fit the curve's field"
  | .offCurve curve => s!"coordinates are not on {curve}"

def ProtocolCause.message : ProtocolCause → String
  | .outOfOrder expected state => s!"expected {expected}, session is {state}"
  | .openingInSigma => "sigma challenges carry no decommitment"

def ProofCause.message : ProofCause → String
  | .masterPseudonym => "master pseudonym proof did not verify"
  | .pseudonymAuthentication => "pseudonym authentication did not verify"
  | .pseudonymRegistration => "pseudonym registration failed"
  | .issuerProof => "issuer proof did not verify"
  | .inconsistentTranscripts => "credential transcripts are inconsistent"

def SignatureCause.message : SignatureCause → String
  | .scalarTooWide => "signature scalar is wider than 256 bits"
  | .invalid => "signature error"

def CollaboratorCause.message : CollaboratorCause → String
  | .noKeys organization => s!"no keys for organization '{organization}'"
  | .failed text => text

/-- The text shown for an error: its kind, and after a colon its cause where there is one. -/
def Error.message : Error → String
  | .params cause => "Invalid group parameters: " ++ cause.message
  | .scalar cause => "Invalid scalar: " ++ cause.message
  | .element cause => "Invalid group element: " ++ cause.message
  | .protocol cause => "Protocol error: " ++ cause.message
  | .decommitment => "Challenge decommitment does not match the commitment"
  | .verification cause => "Proof verification failed: " ++ cause.message
  | .signature cause => "Signature verification failed: " ++ cause.message
  | .registrationDenied => "Registration key rejected"
  | .collaborator cause => "Collaborator failure: " ++ cause.message

/-- A call that the session did not expect in the state it is in. -/
def Error.outOfOrder (expected state : String) : Error :=
  .protocol (.outOfOrder expected state)

end AnonCred
