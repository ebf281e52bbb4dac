import AnonCred.Main
import AnonCred.Secret
import AnonCred.Proofs.Group.Schnorr
import AnonCred.Proofs.Group.Laws
import AnonCred.Proofs.Credential.Binding
import AnonCred.Proofs.Credential.Unlinkability
import AnonCred.Proofs.Credential.Certification
import AnonCred.Proofs.Credential.Certificate
import AnonCred.Proofs.Credential.WellFormed
import AnonCred.Proofs.Party.Sessions
import AnonCred.Proofs.Credential.Tags
import AnonCred.Proofs.Credential.SessionKeys
import AnonCred.Proofs.Credential.RegistrationKeys
import AnonCred.Proofs.Credential.Transcript
import AnonCred.Proofs.Credential.IssuerKey
import AnonCred.Proofs.Knowledge.Exchange
import AnonCred.Proofs.Deployment
import AnonCred.Proofs.Equality.Soundness
import AnonCred.Proofs.Knowledge.Soundness
import AnonCred.Proofs.ZeroKnowledge
import AnonCred.Proofs.Group.Membership
import AnonCred.Proofs.Group.Squares
import AnonCred.Proofs.Pedersen.Hiding
import AnonCred.Proofs.Prime.ErrorBound
import AnonCred.Proofs.Group.GeneratorOrder
import AnonCred.Proofs.Group.Generation
import AnonCred.Proofs.Group.SafeModulus
import AnonCred.Proofs.Digest
import AnonCred.Proofs.Selector
import AnonCred.Proofs.Config.Mode
import AnonCred.Proofs.Config.Validation
