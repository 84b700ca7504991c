import NeoC.Script.ScriptBuilder
import NeoC.Transaction.History

/-!
# The witness that signing appends

An account's script hash is that of the script
`PUSHDATA1 key SYSCALL System.Crypto.CheckSig`.  `neoc_transaction_sign`
builds its witness by other means: `neoc_witness_create_from_signature` writes
the opcodes of an older virtual machine, a length byte in front of the
signature and the key and `0xAC` behind the key.  The witnesses already there
are kept in order, but the new one is never the witness of the account.
-/

namespace NeoC.Transaction

open Foundation NeoVm

variable {curve : Curve}

/-- The account's script hash was derived from its key pair. -/
def DerivedFromKeyPair (host : Host) (account : Account curve) : Prop :=
  ∃ keyPair alloc script,
    account.keyPair = some keyPair ∧
      ScriptBuilder.buildVerificationScript host alloc
          keyPair.getPublicKey.val = .ok script ∧
        Hash160.fromScript host script = .ok account.scriptHash

/--
One witness was appended: its verification script has the account's script
hash, and its invocation script pushes the account's signature of the hash of
the unsigned bytes.
-/
def SignedBy (host : Host) (alloc : Allocator) (account : Account curve)
    (transaction signed : Transaction) : Prop :=
  ∃ witness signature,
    signed.witnesses = transaction.witnesses ++ [witness] ∧
      Hash160.fromScript host witness.verificationScript.content =
        .ok account.scriptHash ∧
      account.sign alloc (host.sha256Digest transaction.unsignedBytes) =
        .ok signature ∧
      witness.invocationScript.content =
        (Instruction.pushData signature.val).encode

/-- What a successful call leaves. -/
theorem sign_eq_ok {host : Host} {alloc : Allocator}
    {account : Account curve} {transaction signed : Transaction}
    (ran : sign host alloc account transaction = (.ok (), signed)) :
    ∃ keyPair signature,
      account.keyPair = some keyPair ∧
        account.sign alloc (host.sha256Digest transaction.unsignedBytes) =
          .ok signature ∧
        signed.witnesses =
          transaction.witnesses ++
            [signatureWitness signature keyPair.getPublicKey] := by
  rcases @calculateHash_cases host alloc transaction with
    ⟨reason, failed⟩ | hashed
  · rw [sign_of_failed failed] at ran
    cases ran
  · rcases sign_of_hashed hashed account with
      ⟨reason, failed⟩ | ⟨keyPair, signature, hasKeys, bySign, appended⟩
    · rw [failed] at ran
      cases ran
    · rw [appended] at ran
      cases ran
      exact ⟨keyPair, signature, hasKeys, bySign, rfl⟩

/-- The first byte of the invocation script is not that of a push. -/
theorem signatureWitness_not_push (signature other : Bytes 64)
    (publicKey : Bytes 33) :
    (signatureWitness signature publicKey).invocationScript.content ≠
      (Instruction.pushData other.val).encode := by
  intro same
  rw [Instruction.encode, if_pos (by rw [other.property]; decide)] at same
  injection same with opcode _
  exact absurd opcode (by decide)

theorem not_signedBy {host : Host} {alloc : Allocator}
    {account : Account curve} {transaction signed : Transaction}
    (ran : sign host alloc account transaction = (.ok (), signed)) :
    ¬SignedBy host alloc account transaction signed := by
  rintro ⟨witness, signature, appended, -, -, push⟩
  rcases sign_eq_ok ran with ⟨keyPair, made, -, -, appended'⟩
  rw [appended', List.append_cancel_left_eq, List.singleton_inj] at appended
  rw [← appended] at push
  exact signatureWitness_not_push made signature keyPair.getPublicKey push

/--
Whenever signing succeeds it keeps the witnesses in order and appends one
whose scripts are laid out for an older virtual machine, so the result is
never signed by the account.
-/
theorem sign_never_signedBy
    {host : Host}
    {alloc : Allocator}
    {account : Account curve}
    {transaction signed : Transaction}
    (ran : sign host alloc account transaction = (.ok (), signed)) :
    (∃ keyPair signature,
      account.keyPair = some keyPair ∧
        account.sign alloc (host.sha256Digest transaction.unsignedBytes) =
          .ok signature ∧
        signed.witnesses =
          transaction.witnesses ++
            [signatureWitness signature keyPair.getPublicKey]) ∧
      ¬SignedBy host alloc account transaction signed := by
  constructor
  · exact sign_eq_ok ran
  · exact not_signedBy ran

/-! ## An account with the private key one -/

/-- The signature of the empty transaction, with one for its nonce. -/
def baseSignature : Bytes 32 × Bytes 32 :=
  (Bytes.ofNat 32
      0x6B17D1F2E12C4247F8BCE6E563A440F277037D812DEB33A0F4A13945D898C296,
    Bytes.ofNat 32
      0xA5F5CD06FE040C0CBF1121677CBE77FA232D45216F0CAB23DABE86D79F2A717E)

/-- The curve with that signature. -/
def baseCurve : Curve :=
  Curve.basePoint fun _ => some baseSignature

/-- The key pair of the private key one. -/
def baseKeyPair : EcKeyPair baseCurve where
  privateKey := ()
  publicKey := EcPublicKey.ofPoint () true

/-- The verification script of that key pair. -/
def baseScript : List UInt8 :=
  [0x0C, 0x21] ++ basePointCompressed ++ [0x41, 0x56, 0xE7, 0xB3, 0x27]

/-- The script hash as OpenSSL computes it, least significant byte first. -/
def baseScriptHash : Bytes 20 :=
  Bytes.ofNat 20 0x66DE052617E55519358C3885E049E3D3E07EFE7E

/-- A host that knows the digests used below. -/
def baseHost : Host :=
  let digest :=
    Bytes.ofNat 32
      0x7D9BC3A1A1AC17717CC31701B322BB09194369671662171457FDD638C56D39E3
  Host.ofTables
    (serviceDigests ++
      [(List.replicate 28 0, emptyTransactionDigest), (baseScript, digest)])
    [(digest.val, baseScriptHash)]

/-- The account of that key pair. -/
def baseAccount : Account baseCurve where
  scriptHash := baseScriptHash.reverse
  keyPair := some baseKeyPair

theorem sign_baseAccount :
    ∃ signed,
      sign baseHost .ample baseAccount emptyTransaction =
        (.ok (), signed) := by
  have succeeds :
      (sign baseHost .ample baseAccount
        emptyTransaction).1.isOk = true := by
    decide +kernel
  rcases ran :
      sign baseHost .ample baseAccount emptyTransaction with
    ⟨reason | value, signed⟩
  · rw [ran] at succeeds
    cases succeeds
  · exact ⟨signed, rfl⟩

/-- Signing with this account succeeds and does not sign for it. -/
theorem sign_never_signedBy_baseAccount :
    ∃ signed,
      sign baseHost .ample baseAccount emptyTransaction =
          (.ok (), signed) ∧
        ¬SignedBy baseHost .ample baseAccount emptyTransaction
          signed := by
  rcases sign_baseAccount with ⟨signed, ran⟩
  exact ⟨signed, ran, (sign_never_signedBy ran).2⟩

/-- The account's script hash is derived from its key pair all the same. -/
theorem sign_misses_baseAccount :
    ¬∀ (host : Host) (curve : Curve) (alloc : Allocator)
        (account : Account curve) (transaction signed : Transaction),
      DerivedFromKeyPair host account →
        sign host alloc account transaction = (.ok (), signed) →
          SignedBy host alloc account transaction signed := by
  intro always
  have derived : DerivedFromKeyPair baseHost baseAccount := by
    refine ⟨baseKeyPair, .ample, baseScript, rfl, ?_, ?_⟩
    · decide +kernel
    · decide +kernel
  rcases sign_baseAccount with ⟨signed, ran⟩
  exact
    not_signedBy ran
      (always baseHost baseCurve .ample baseAccount
        emptyTransaction signed derived ran)

end NeoC.Transaction
