import Ldap3.Ldap.Handle
import Ldap3.Protocol.Sasl

/-!
# The GSSAPI bind

`gssapi_bind` of `src/ldap.rs`. After two messages that authenticate the client the server sends a
final challenge: an octet with the security layers it offers, and the size of its receive buffer on
three octets. The client answers with the layer it needs, and if the server accepts that, the layer
is switched on in the state that the handle shares with the codec.

The GSSAPI implementation is that of another library. It is a parameter here, `Gssapi`, of which
nothing is assumed.

The check of the layers is an `or` of the mask and the layer where an `and` is meant. It lets every
mask pass, and nothing checks the length of the challenge before the client has answered: an empty
one makes it panic at once, and one of another length when the server has accepted. The layer is one
of those offered if and only if the server keeps to the protocol, apart from calls that fail before
the answer is sent (`gssapiBind_selectsOffered_iff`).
-/

namespace Ldap3

/-! ### The library -/

/-- `Step`, with pending contexts of the type `ι` and established ones of the type `κ`. -/
inductive Gssapi.Step (ι κ : Type) where
  | finished (ctx : κ) (token : Option (List UInt8))
  | «continue» (ctx : ι) (token : List UInt8)

/-- The calls of the library, with credentials of the type `χ`. The flags and the principal of `new`
are always the same. -/
structure Gssapi (χ ι κ : Type) extends ClientCtx κ where
  new : (spn : String) → (cbt : Option (List UInt8)) → Except String (ι × List UInt8)
  newWithCred : χ → (spn : String) → (cbt : Option (List UInt8)) → Except String (ι × List UInt8)
  step : ι → List UInt8 → Except String (Gssapi.Step ι κ)
  unwrap : κ → List UInt8 → Except String (List UInt8 × κ)

/-- `GssapiCred`. -/
inductive GssapiCred (χ : Type) where
  | default
  | supplied (cred : χ)

/-! ### The handle -/

/-- A lock, poisoned if a thread has panicked while it held it. -/
structure Lock (α : Type) where
  poisoned : Bool
  val : α

/-- `Ldap`, in the build with the `gssapi` feature. `saslParam` has `sasl_wrap` and
`sasl_max_send`. -/
structure GssapiLdap (κ : Type) extends Ldap where
  hasTls : Bool
  tlsEndpointToken : Option (List UInt8)
  saslParam : Lock (Bool × UInt32)
  clientCtx : Lock (Option κ)

variable {χ ι κ : Type}

/-- `GSSAUTH_P_NONE`. -/
def gssauthPNone : UInt8 := 1

/-- `GSSAUTH_P_PRIVACY`. -/
def gssauthPPrivacy : UInt8 := 4

/-- `LDAP_RESULT_SASL_BIND_IN_PROGRESS`. -/
def ldapResultSaslBindInProgress : UInt32 := 14

/-- `u32::from_be_bytes` of a slice, if it has the length for it. -/
def fromBeBytes (buf : List UInt8) : Option UInt32 :=
  if buf.length = 4 then some (UInt32.ofNat (BigEndian.value buf)) else none

/-- `recv_max_size`. -/
def recvMaxSize (neededLayer : UInt8) : List UInt8 :=
  BigEndian.octets 4 (0x9FFFB8 ||| neededLayer.toNat <<< 24)

/-- The token of a response that goes on with the bind; otherwise what `gssapi_bind` returns. -/
def serverToken (ans : Except Failure LdapResultExt) :
    Except (Except Failure LdapResult) (List UInt8) :=
  match ans with
  | .error e => .error (.error e)
  | .ok ans =>
    if ans.result.rc ≠ ldapResultSaslBindInProgress then
      .error (.ok ans.result)
    else
      match ans.saslCreds with
      | some token => .ok token
      | none => .error (.error (.err .noGssapiToken))

/-- A message has an id, but there is no driver to receive it. -/
def Served.Unsent (s : Served) : Prop :=
  s.id.isSome ∧ s.sent = false

namespace GssapiLdap

/-- `op_call` with the request of `sasl_bind_req`. -/
def saslCall (ldap : GssapiLdap κ) (creds : Option (List UInt8)) (s : Served) :
    GssapiLdap κ × List Sent × Except Failure LdapResultExt :=
  let (handle, sent, ans) := ldap.toLdap.opCall .single (Request.saslBindReq "GSSAPI" creds) s
  ({ ldap with toLdap := handle }, sent.toList, ans)

/-- The context `gssapi_bind` starts with, and the first token. -/
def initiate (lib : Gssapi χ ι κ) (ldap : GssapiLdap κ) (serverFqdn : String)
    (cred : GssapiCred χ) : Except String (ι × List UInt8) :=
  let spn := "ldap/" ++ serverFqdn
  let cbt := if ldap.hasTls then
      ldap.tlsEndpointToken.map fun token ↦ asBytes "tls-server-end-point:" ++ token
    else
      none
  match cred with
  | .default => lib.new spn cbt
  | .supplied cred => lib.newWithCred cred spn cbt

/-- `gssapi_bind` up to the final challenge of the server: what was sent, and the context and the
challenge, or what is returned before it comes to that. -/
def authenticate (lib : Gssapi χ ι κ) (ldap : GssapiLdap κ) (serverFqdn : String)
    (cred : GssapiCred χ) (s₁ s₂ : Served) :
    GssapiLdap κ × List Sent × Except (Except Failure LdapResult) (κ × List UInt8) :=
  match ldap.initiate lib serverFqdn cred with
  | .error e => (ldap, [], .error (.error (.err (.gssapiOperation e))))
  | .ok (clientCtx, token) =>
    let (ldap, sent₁, ans) := ldap.saslCall (some token) s₁
    match serverToken ans with
    | .error res => (ldap, sent₁, .error res)
    | .ok token =>
      match lib.step clientCtx token with
      | .error e => (ldap, sent₁, .error (.error (.err (.gssapiOperation e))))
      | .ok (.finished clientCtx none) =>
        let (ldap, sent₂, ans) := ldap.saslCall none s₂
        (ldap, sent₁ ++ sent₂, (serverToken ans).map fun token ↦ (clientCtx, token))
      | .ok _ =>
        (ldap, sent₁, .error (.error (.err (.gssapiOperation
          "GSSAPI exchange not finished or has an additional token"))))

/-- The layer the client needs. -/
def neededLayer (ldap : GssapiLdap κ) : UInt8 :=
  if ldap.hasTls then gssauthPNone else gssauthPPrivacy

/-- `client_opt.replace(client_ctx)`. -/
def replaceCtx (ldap : GssapiLdap κ) (clientCtx : κ) (res : LdapResult) :
    GssapiLdap κ × Except Failure LdapResult :=
  if ldap.clientCtx.poisoned then
    (ldap, .error .panic)
  else
    ({ ldap with clientCtx := { ldap.clientCtx with val := some clientCtx } }, .ok res)

/-- The end of `gssapi_bind`, with the result of the final message; `buf` is the challenge with its
first octet set to zero. -/
def settle (ldap : GssapiLdap κ) (clientCtx : κ) (buf : List UInt8) (res : LdapResult) :
    GssapiLdap κ × Except Failure LdapResult :=
  if res.rc = 0 then
    if ldap.neededLayer = gssauthPPrivacy then
      match fromBeBytes buf with
      | none => (ldap, .error .panic)
      | some sendMaxSize =>
        if ldap.saslParam.poisoned then
          (ldap, .error .panic)
        else
          { ldap with saslParam := { ldap.saslParam with val := (true, sendMaxSize) } }.replaceCtx
            clientCtx res
    else
      ldap.replaceCtx clientCtx res
  else
    (ldap, .ok res)

/-- `gssapi_bind` from the final challenge on. -/
def negotiate (lib : Gssapi χ ι κ) (ldap : GssapiLdap κ) (clientCtx : κ) (token : List UInt8)
    (s : Served) : GssapiLdap κ × List Sent × Except Failure LdapResult :=
  match lib.unwrap clientCtx token with
  | .error e => (ldap, [], .error (.err (.gssapiOperation e)))
  -- `buf[0]`.
  | .ok ([], _) => (ldap, [], .error .panic)
  | .ok (mask :: maxSize, clientCtx) =>
    if mask ||| ldap.neededLayer = 0 then
      (ldap, [], .error (.err (.gssapiOperation ("no appropriate security layer offered: needed " ++
        toString ldap.neededLayer ++ ", mask " ++ toString mask))))
    else
      match lib.wrap clientCtx (recvMaxSize ldap.neededLayer) with
      | .error e => (ldap, [], .error (.err (.gssapiOperation e)))
      | .ok (sizeMsg, clientCtx) =>
        match ldap.saslCall (some sizeMsg) s with
        | (ldap, sent, .error e) => (ldap, sent, .error e)
        | (ldap, sent, .ok ans) =>
          let (ldap, res) := ldap.settle clientCtx (0 :: maxSize) ans.result
          (ldap, sent, res)

/-- `gssapi_bind`: the handle after it, what was sent, and the result. -/
def gssapiBind (lib : Gssapi χ ι κ) (ldap : GssapiLdap κ) (serverFqdn : String)
    (cred : GssapiCred χ) (s₁ s₂ s₃ : Served) :
    GssapiLdap κ × List Sent × Except Failure LdapResult :=
  match ldap.authenticate lib serverFqdn cred s₁ s₂ with
  | (ldap, sent, .error res) => (ldap, sent, res)
  | (ldap, sent, .ok (clientCtx, token)) =>
    let (ldap, sent', res) := ldap.negotiate lib clientCtx token s₃
    (ldap, sent ++ sent', res)

/-! ### The shared state -/

section Frame

variable {lib : Gssapi χ ι κ} {ldap : GssapiLdap κ}

@[simp] theorem saslCall_hasTls (creds : Option (List UInt8)) (s : Served) :
    (ldap.saslCall creds s).1.hasTls = ldap.hasTls := rfl

@[simp] theorem saslCall_saslParam (creds : Option (List UInt8)) (s : Served) :
    (ldap.saslCall creds s).1.saslParam = ldap.saslParam := rfl

@[simp] theorem saslCall_clientCtx (creds : Option (List UInt8)) (s : Served) :
    (ldap.saslCall creds s).1.clientCtx = ldap.clientCtx := rfl

theorem saslCall_sent {s : Served} {id : RequestId} (creds : Option (List UInt8))
    (hid : s.id = some id) (hsent : s.sent = true) : (ldap.saslCall creds s).2.1 ≠ [] := by
  rw [saslCall, opCall_of_sent hid hsent]
  exact List.cons_ne_nil _ _

theorem saslCall_of_not_sent {s : Served} {id : RequestId} (creds : Option (List UInt8))
    (hid : s.id = some id) (hsent : s.sent = false) :
    (ldap.saslCall creds s).2 = ([], .error (.err .opSend)) := by
  rw [saslCall, opCall_of_not_sent hid hsent]
  rfl

theorem saslCall_of_id_none {s : Served} (creds : Option (List UInt8)) (hid : s.id = none) :
    (ldap.saslCall creds s).2 = ([], .error .panic) := by
  rw [saslCall, opCall_of_id_none hid]
  rfl

variable (lib ldap) in
/-- The shared state is left alone until the final message. -/
theorem authenticate_frame (serverFqdn : String) (cred : GssapiCred χ) (s₁ s₂ : Served) :
    (ldap.authenticate lib serverFqdn cred s₁ s₂).1.hasTls = ldap.hasTls ∧
      (ldap.authenticate lib serverFqdn cred s₁ s₂).1.saslParam = ldap.saslParam ∧
      (ldap.authenticate lib serverFqdn cred s₁ s₂).1.clientCtx = ldap.clientCtx := by
  unfold authenticate
  rcases ldap.initiate lib serverFqdn cred with e | ⟨clientCtx, token⟩
  · exact ⟨rfl, rfl, rfl⟩
  · dsimp only
    rcases serverToken (ldap.saslCall (some token) s₁).2.2 with res | token
    · exact ⟨rfl, rfl, rfl⟩
    · dsimp only
      rcases lib.step clientCtx token with e | (⟨clientCtx, - | token⟩ | ⟨clientCtx, token⟩) <;>
        exact ⟨rfl, rfl, rfl⟩

/-- The server answers the first two messages with tokens, and the context is established with the
first of them. -/
theorem authenticate_of {serverFqdn : String} {cred : GssapiCred χ} {s₁ s₂ : Served} {pending : ι}
    {ctx : κ} {first token₁ token : List UInt8}
    (hinit : ldap.initiate lib serverFqdn cred = .ok (pending, first))
    (hans₁ : serverToken (ldap.saslCall (some first) s₁).2.2 = .ok token₁)
    (hstep : lib.step pending token₁ = .ok (.finished ctx none))
    (hans₂ : serverToken ((ldap.saslCall (some first) s₁).1.saslCall none s₂).2.2 = .ok token) :
    ldap.authenticate lib serverFqdn cred s₁ s₂ =
      (((ldap.saslCall (some first) s₁).1.saslCall none s₂).1,
        (ldap.saslCall (some first) s₁).2.1 ++
          ((ldap.saslCall (some first) s₁).1.saslCall none s₂).2.1, .ok (ctx, token)) := by
  simp only [authenticate, hinit, hans₁, hstep, hans₂, Except.map]

end Frame

/-! ### The choice of the layer -/

/-- The challenge has four octets, and the layer is among those its first octet offers. -/
def Offers (buf : List UInt8) (layer : UInt8) : Prop :=
  buf.length = 4 ∧ ∃ mask ∈ buf.head?, mask &&& layer ≠ 0

instance decidableOffers (buf : List UInt8) (layer : UInt8) : Decidable (Offers buf layer) :=
  inferInstanceAs (Decidable (_ ∧ _))

/-- The messages `sent` before the challenge are followed by another one only if the layer is
offered; otherwise there is an error, and the shared state is as before. After a success the layer
is on if there is no TLS, with the size the challenge has on its last three octets. -/
structure SelectsOffered (ldap : GssapiLdap κ) (sent : List Sent) (buf : List UInt8)
    (out : GssapiLdap κ × List Sent × Except Failure LdapResult) : Prop where
  refused : ¬Offers buf ldap.neededLayer →
    (∃ e, out.2.2 = .error (.err e)) ∧ out.2.1 = sent ∧ out.1.saslParam = ldap.saslParam ∧
      out.1.clientCtx = ldap.clientCtx
  bound : ∀ res, out.2.2 = .ok res → res.rc = 0 →
    out.1.saslParam.val = if ldap.hasTls then ldap.saslParam.val else
      (true, UInt32.ofNat (BigEndian.value buf % 2 ^ 24))

theorem neededLayer_eq_privacy_iff {ldap : GssapiLdap κ} :
    ldap.neededLayer = gssauthPPrivacy ↔ ldap.hasTls = false := by
  rcases htls : ldap.hasTls <;> simp [neededLayer, htls, gssauthPNone, gssauthPPrivacy]

/-- The layer is never zero, so the `or` of it and a mask is not. -/
theorem or_neededLayer_ne_zero (mask : UInt8) (ldap : GssapiLdap κ) :
    mask ||| ldap.neededLayer ≠ 0 := by
  rcases htls : ldap.hasTls <;> simp [neededLayer, htls, gssauthPNone, gssauthPPrivacy]

theorem fromBeBytes_eq_some_iff {buf : List UInt8} {n : UInt32} :
    fromBeBytes buf = some n ↔ buf.length = 4 ∧ UInt32.ofNat (BigEndian.value buf) = n := by
  simp [fromBeBytes]

/-- The size read from the challenge with its first octet set to zero. -/
theorem value_zero_cons {mask : UInt8} {maxSize : List UInt8} (h : maxSize.length = 3) :
    BigEndian.value (0 :: maxSize) = BigEndian.value (mask :: maxSize) % 2 ^ 24 := by
  have hzero : BigEndian.value (0 :: maxSize) = BigEndian.value maxSize := by
    rw [BigEndian.value_cons]
    simp
  rw [hzero, ← BigEndian.value_cons_mod mask maxSize, h]
  rfl

theorem replaceCtx_ok {ldap ldap' : GssapiLdap κ} {ctx : κ} {r res : LdapResult}
    (h : ldap.replaceCtx ctx r = (ldap', .ok res)) :
    res = r ∧ ldap'.saslParam = ldap.saslParam ∧ ldap'.clientCtx.val = some ctx := by
  rw [replaceCtx] at h
  split at h
  · cases h
  · cases h
    exact ⟨rfl, rfl, rfl⟩

/-- A bind that succeeds at its end has set the shared state. -/
theorem settle_ok {ldap ldap' : GssapiLdap κ} {ctx : κ} (mask : UInt8) {maxSize : List UInt8}
    {r res : LdapResult} (h : ldap.settle ctx (0 :: maxSize) r = (ldap', .ok res))
    (hrc : res.rc = 0) :
    ldap'.clientCtx.val = some ctx ∧
      ldap'.saslParam.val = if ldap.hasTls then ldap.saslParam.val else
        (true, UInt32.ofNat (BigEndian.value (mask :: maxSize) % 2 ^ 24)) := by
  rw [settle] at h
  split at h
  · split at h
    · rename_i hlayer
      rw [neededLayer_eq_privacy_iff] at hlayer
      rcases hbytes : fromBeBytes (0 :: maxSize) with - | n
      · rw [hbytes] at h
        cases h
      · rw [hbytes] at h
        dsimp only at h
        obtain ⟨hlen, rfl⟩ := fromBeBytes_eq_some_iff.1 hbytes
        split at h
        · cases h
        · obtain ⟨-, hparam, hctx⟩ := replaceCtx_ok h
          rw [hparam, hlayer, ← value_zero_cons (by simpa using hlen)]
          exact ⟨hctx, rfl⟩
    · rename_i hlayer
      have htls : ldap.hasTls = true := by simpa [neededLayer_eq_privacy_iff] using hlayer
      obtain ⟨-, hparam, hctx⟩ := replaceCtx_ok h
      rw [hparam, htls]
      exact ⟨hctx, rfl⟩
  · rename_i hne
    cases h
    exact absurd hrc hne

section Negotiate

variable {lib : Gssapi χ ι κ} {ldap : GssapiLdap κ} {ctx ctx' : κ} {token buf : List UInt8}
  {s : Served}

theorem negotiate_nil (hbuf : lib.unwrap ctx token = .ok ([], ctx')) :
    ldap.negotiate lib ctx token s = (ldap, [], .error .panic) := by
  simp only [negotiate, hbuf]

/-- The final message cannot be made. -/
theorem negotiate_of_wrap_error {mask : UInt8} {maxSize : List UInt8} {e : String}
    (hbuf : lib.unwrap ctx token = .ok (mask :: maxSize, ctx'))
    (hwrap : lib.wrap ctx' (recvMaxSize ldap.neededLayer) = .error e) :
    ldap.negotiate lib ctx token s = (ldap, [], .error (.err (.gssapiOperation e))) := by
  simp only [negotiate, hbuf, hwrap, if_neg (or_neededLayer_ne_zero mask ldap)]

/-- Whatever its mask, a challenge with a first octet is answered. -/
theorem negotiate_of_call_error {mask : UInt8} {maxSize sizeMsg : List UInt8} {ctx'' : κ}
    {ldap' : GssapiLdap κ} {sent : List Sent} {e : Failure}
    (hbuf : lib.unwrap ctx token = .ok (mask :: maxSize, ctx'))
    (hwrap : lib.wrap ctx' (recvMaxSize ldap.neededLayer) = .ok (sizeMsg, ctx''))
    (hcall : ldap.saslCall (some sizeMsg) s = (ldap', sent, .error e)) :
    ldap.negotiate lib ctx token s = (ldap', sent, .error e) := by
  simp only [negotiate, hbuf, hwrap, if_neg (or_neededLayer_ne_zero mask ldap), hcall]

theorem negotiate_of_call_ok {mask : UInt8} {maxSize sizeMsg : List UInt8} {ctx'' : κ}
    {ldap' : GssapiLdap κ} {sent : List Sent} {ans : LdapResultExt}
    (hbuf : lib.unwrap ctx token = .ok (mask :: maxSize, ctx'))
    (hwrap : lib.wrap ctx' (recvMaxSize ldap.neededLayer) = .ok (sizeMsg, ctx''))
    (hcall : ldap.saslCall (some sizeMsg) s = (ldap', sent, .ok ans)) :
    ldap.negotiate lib ctx token s =
      ((ldap'.settle ctx'' (0 :: maxSize) ans.result).1, sent,
        (ldap'.settle ctx'' (0 :: maxSize) ans.result).2) := by
  simp only [negotiate, hbuf, hwrap, if_neg (or_neededLayer_ne_zero mask ldap), hcall]

/-- What is sent is the final message, whatever comes of it. -/
theorem negotiate_sent {mask : UInt8} {maxSize sizeMsg : List UInt8} {ctx'' : κ}
    (hbuf : lib.unwrap ctx token = .ok (mask :: maxSize, ctx'))
    (hwrap : lib.wrap ctx' (recvMaxSize ldap.neededLayer) = .ok (sizeMsg, ctx'')) :
    (ldap.negotiate lib ctx token s).2.1 = (ldap.saslCall (some sizeMsg) s).2.1 := by
  rcases hcall : ldap.saslCall (some sizeMsg) s with ⟨ldap', sent, e | ans⟩
  · rw [negotiate_of_call_error hbuf hwrap hcall]
  · rw [negotiate_of_call_ok hbuf hwrap hcall]

/-- A bind that succeeds after the challenge has set the shared state. -/
theorem negotiate_ok {out : GssapiLdap κ × List Sent × Except Failure LdapResult}
    {res : LdapResult} (hbuf : lib.unwrap ctx token = .ok (buf, ctx'))
    (hout : ldap.negotiate lib ctx token s = out) (hres : out.2.2 = .ok res) (hrc : res.rc = 0) :
    (∃ k, out.1.clientCtx.val = some k) ∧
      out.1.saslParam.val = if ldap.hasTls then ldap.saslParam.val else
        (true, UInt32.ofNat (BigEndian.value buf % 2 ^ 24)) := by
  rcases buf with - | ⟨mask, maxSize⟩
  · rw [negotiate_nil hbuf] at hout
    subst hout
    cases hres
  rcases hwrap : lib.wrap ctx' (recvMaxSize ldap.neededLayer) with e | ⟨sizeMsg, ctx''⟩
  · rw [negotiate_of_wrap_error hbuf hwrap] at hout
    subst hout
    cases hres
  rcases hcall : ldap.saslCall (some sizeMsg) s with ⟨ldap', sent, e | ans⟩
  · rw [negotiate_of_call_error hbuf hwrap hcall] at hout
    subst hout
    cases hres
  · rw [negotiate_of_call_ok hbuf hwrap hcall] at hout
    subst hout
    have hldap' : ldap' = (ldap.saslCall (some sizeMsg) s).1 := by rw [hcall]
    obtain ⟨hctx, hparam⟩ := settle_ok mask (Prod.ext rfl hres) hrc
    subst hldap'
    exact ⟨⟨_, hctx⟩, hparam⟩

variable (ldap s) in
/-- The bind ends with an error and without a message if the message cannot be made or sent. -/
theorem negotiate_refuses_iff (hbuf : lib.unwrap ctx token = .ok (buf, ctx')) :
    ((∃ e, (ldap.negotiate lib ctx token s).2.2 = .error (.err e)) ∧
        (ldap.negotiate lib ctx token s).2.1 = [] ∧
        (ldap.negotiate lib ctx token s).1.saslParam = ldap.saslParam ∧
        (ldap.negotiate lib ctx token s).1.clientCtx = ldap.clientCtx) ↔
      buf ≠ [] ∧ ((∃ e, lib.wrap ctx' (recvMaxSize ldap.neededLayer) = .error e) ∨ s.Unsent) := by
  rcases buf with - | ⟨mask, maxSize⟩
  · simp [negotiate_nil hbuf]
  rcases hwrap : lib.wrap ctx' (recvMaxSize ldap.neededLayer) with e | ⟨sizeMsg, ctx''⟩
  · simp [negotiate_of_wrap_error hbuf hwrap]
  rcases hcall : ldap.saslCall (some sizeMsg) s with ⟨ldap', sent, ans⟩
  have hldap' : ldap' = (ldap.saslCall (some sizeMsg) s).1 := by rw [hcall]
  have hrest : (sent, ans) = (ldap.saslCall (some sizeMsg) s).2 := by rw [hcall]
  rcases hid : s.id with - | id
  · -- No free slots.
    rw [saslCall_of_id_none _ hid] at hrest
    cases hrest
    simp [negotiate_of_call_error hbuf hwrap hcall, Served.Unsent, hid]
  rcases hsent : s.sent with - | -
  · rw [saslCall_of_not_sent _ hid hsent] at hrest
    cases hrest
    simp [negotiate_of_call_error hbuf hwrap hcall, Served.Unsent, hid, hsent, hldap']
  · -- The message is on its way.
    have hne : (ldap.saslCall (some sizeMsg) s).2.1 ≠ [] := saslCall_sent _ hid hsent
    simp [negotiate_sent hbuf hwrap, Served.Unsent, hsent, hne]

/-- A challenge of another length makes the bind panic when the server has accepted. -/
theorem negotiate_of_length_ne {sizeMsg : List UInt8} {ctx'' : κ} {ans : LdapResultExt}
    (htls : ldap.hasTls = false) (hbuf : lib.unwrap ctx token = .ok (buf, ctx'))
    (hwrap : lib.wrap ctx' (recvMaxSize ldap.neededLayer) = .ok (sizeMsg, ctx''))
    (hans : (ldap.saslCall (some sizeMsg) s).2.2 = .ok ans) (hrc : ans.result.rc = 0)
    (hlen : buf.length ≠ 4) : (ldap.negotiate lib ctx token s).2.2 = .error .panic := by
  rcases buf with - | ⟨mask, maxSize⟩
  · rw [negotiate_nil hbuf]
  · have hlayer : (ldap.saslCall (some sizeMsg) s).1.neededLayer = gssauthPPrivacy :=
      neededLayer_eq_privacy_iff.2 htls
    have hnone : fromBeBytes (0 :: maxSize) = none := by
      rw [fromBeBytes, if_neg (by simpa using hlen)]
    rw [negotiate_of_call_ok hbuf hwrap (Prod.ext rfl (Prod.ext rfl hans)), settle, if_pos hrc,
      if_pos hlayer, hnone]

end Negotiate

/-! ### The bind -/

/-- The bind from the challenge on, with what was sent before. -/
theorem gssapiBind_of_authenticate {lib : Gssapi χ ι κ} {ldap ldap' : GssapiLdap κ}
    {serverFqdn : String} {cred : GssapiCred χ} {s₁ s₂ s₃ : Served} {sent : List Sent} {ctx : κ}
    {token : List UInt8}
    (hauth : ldap.authenticate lib serverFqdn cred s₁ s₂ = (ldap', sent, .ok (ctx, token))) :
    ldap.gssapiBind lib serverFqdn cred s₁ s₂ s₃ =
      ((ldap'.negotiate lib ctx token s₃).1, sent ++ (ldap'.negotiate lib ctx token s₃).2.1,
        (ldap'.negotiate lib ctx token s₃).2.2) := by
  simp only [gssapiBind, hauth]

/-- **The layer is one of those offered** if and only if the challenge has four octets and the layer
in its mask, or the answer cannot be made or sent. The library may be anything, and the state that
of any handle. -/
theorem gssapiBind_selectsOffered_iff (lib : Gssapi χ ι κ) (ldap : GssapiLdap κ)
    (serverFqdn : String) (cred : GssapiCred χ) (s₁ s₂ s₃ : Served) {ldap' : GssapiLdap κ}
    {sent : List Sent} {ctx ctx' : κ} {token buf : List UInt8}
    (hauth : ldap.authenticate lib serverFqdn cred s₁ s₂ = (ldap', sent, .ok (ctx, token)))
    (hbuf : lib.unwrap ctx token = .ok (buf, ctx')) :
    SelectsOffered ldap sent buf (ldap.gssapiBind lib serverFqdn cred s₁ s₂ s₃) ↔
      Offers buf ldap.neededLayer ∨ buf ≠ [] ∧
        ((∃ e, lib.wrap ctx' (recvMaxSize ldap.neededLayer) = .error e) ∨ s₃.Unsent) := by
  obtain ⟨htls, hparam, hctx⟩ :=
    authenticate_frame lib ldap serverFqdn cred s₁ s₂
  rw [hauth] at htls hparam hctx
  have hlayer : ldap'.neededLayer = ldap.neededLayer := by rw [neededLayer, neededLayer, htls]
  have hrefuses := negotiate_refuses_iff ldap' s₃ hbuf
  rw [hlayer, hparam, hctx] at hrefuses
  rw [gssapiBind_of_authenticate hauth]
  constructor
  · intro h
    by_cases hoffers : Offers buf ldap.neededLayer
    · exact Or.inl hoffers
    · obtain ⟨herr, hnone, hparam', hctx'⟩ := h.refused hoffers
      exact Or.inr (hrefuses.1 ⟨herr, by simpa using hnone, hparam', hctx'⟩)
  · intro h
    refine ⟨fun hoffers ↦ ?_, fun res hres hrc ↦ ?_⟩
    · obtain ⟨herr, hnone, hsame⟩ := hrefuses.2 (h.resolve_left hoffers)
      exact ⟨herr, by simp [hnone], hsame⟩
    · have hok := (negotiate_ok hbuf rfl hres hrc).2
      rwa [htls, hparam] at hok

/-- A library that neither encrypts nor signs. -/
def nullGssapi : Gssapi Unit Unit Unit where
  unwrapIov _ n buf := .ok (buf.take n, (), buf.drop n)
  wrap _ buf := .ok (buf, ())
  new _ _ := .ok ((), [0x60])
  newWithCred _ _ _ := .ok ((), [0x60])
  step _ _ := .ok (.finished () none)
  unwrap _ buf := .ok (buf, ())

/-- A handle of a new connection without TLS. -/
def plainHandle : GssapiLdap Unit :=
  ⟨⟨0, none, none, none⟩, false, none, ⟨false, (false, 0)⟩, ⟨false, none⟩⟩

/-- The response of a server that goes on with the bind. -/
def inProgress (token : List UInt8) : Response :=
  { Response.bindResponse with rc := 14, saslCreds := some token, rc_lt := by decide }

/-- What happens to a message that is answered with it. -/
def challenged (id : RequestId) (token : List UInt8) : Served :=
  ⟨some id, true, none, some (.structureTag ((inProgress token).opTag [14]), [])⟩

theorem serverToken_challenged (ldap : GssapiLdap Unit) (creds : Option (List UInt8))
    (id : RequestId) (token : List UInt8) :
    serverToken (ldap.saslCall creds (challenged id token)).2.2 = .ok token := by
  have hrc : Response.Denotes [14] (inProgress token).rc := ⟨by decide, rfl⟩
  have hread := (inProgress token).opResult_opTag hrc []
  rw [saslCall, opCall_of_sent rfl rfl]
  rcases htimeout : ldap.timeout with - | timeout <;>
    simp only [Served.response, challenged, hread, Except.mapError] <;> rfl

/-- The client and the server get as far as the challenge. -/
theorem authenticate_nullGssapi (token : List UInt8) :
    ∃ ldap' sent, plainHandle.authenticate nullGssapi "localhost" .default (challenged 1 [])
      (challenged 2 token) = (ldap', sent, .ok ((), token)) :=
  ⟨_, _, authenticate_of rfl (serverToken_challenged _ _ _ _) rfl (serverToken_challenged _ _ _ _)⟩

theorem gssapiBind_selectsOffered_iff_privacy :
    ∃ ldap' sent, plainHandle.authenticate nullGssapi "localhost" .default (challenged 1 [])
        (challenged 2 [7, 0, 255, 255]) = (ldap', sent, .ok ((), [7, 0, 255, 255])) ∧
      SelectsOffered plainHandle sent [7, 0, 255, 255] (plainHandle.gssapiBind nullGssapi
        "localhost" .default (challenged 1 []) (challenged 2 [7, 0, 255, 255])
        (challenged 3 [])) := by
  obtain ⟨ldap', sent, hauth⟩ := authenticate_nullGssapi [7, 0, 255, 255]
  exact ⟨ldap', sent, hauth, (gssapiBind_selectsOffered_iff nullGssapi plainHandle "localhost"
    .default _ _ (challenged 3 []) hauth rfl).2 (Or.inl (by decide))⟩

/-- The server offers no layer but the one without protection, and the client answers that it takes
the one with encryption. -/
theorem gssapiBind_not_selectsOffered :
    ∃ ldap' sent, plainHandle.authenticate nullGssapi "localhost" .default (challenged 1 [])
        (challenged 2 [1, 0, 255, 255]) = (ldap', sent, .ok ((), [1, 0, 255, 255])) ∧
      nullGssapi.unwrap () [1, 0, 255, 255] = .ok ([1, 0, 255, 255], ()) ∧
      ¬SelectsOffered plainHandle sent [1, 0, 255, 255] (plainHandle.gssapiBind nullGssapi
        "localhost" .default (challenged 1 []) (challenged 2 [1, 0, 255, 255])
        (challenged 3 [])) := by
  obtain ⟨ldap', sent, hauth⟩ := authenticate_nullGssapi [1, 0, 255, 255]
  refine ⟨ldap', sent, hauth, rfl, fun h ↦ ?_⟩
  have hmore := (h.refused (by decide)).2.1
  rw [gssapiBind_of_authenticate hauth] at hmore
  have hnone : (ldap'.negotiate nullGssapi () [1, 0, 255, 255] (challenged 3 [])).2.1 = [] := by
    simpa using hmore
  rw [negotiate_sent rfl rfl] at hnone
  exact saslCall_sent _ rfl rfl hnone

/-- The codec that shares the state of the handle. -/
def codec (ldap : GssapiLdap κ) (hasDecodedData : Bool) : LdapCodec κ :=
  ⟨hasDecodedData, ldap.saslParam.val.1, ldap.saslParam.val.2.toNat, ldap.clientCtx.val⟩

/-- **Without TLS nothing is sent in the clear after the bind.** -/
theorem maybeWrap_of_gssapiBind {lib : Gssapi χ ι κ} {ldap ldap' out : GssapiLdap κ}
    {serverFqdn : String} {cred : GssapiCred χ} {s₁ s₂ s₃ : Served} {sent sent' : List Sent}
    {ctx ctx' : κ} {token buf : List UInt8} {res : LdapResult} (htls : ldap.hasTls = false)
    (hauth : ldap.authenticate lib serverFqdn cred s₁ s₂ = (ldap', sent, .ok (ctx, token)))
    (hbuf : lib.unwrap ctx token = .ok (buf, ctx'))
    (hout : ldap.gssapiBind lib serverFqdn cred s₁ s₂ s₃ = (out, sent', .ok res))
    (hrc : res.rc = 0) (hasDecodedData : Bool) (outstruct : StructureTag) :
    (∃ e, (maybeWrap lib.toClientCtx (out.codec hasDecodedData) outstruct).1 =
        .error (.error e)) ∨
      ∃ saslBuf, (maybeWrap lib.toClientCtx (out.codec hasDecodedData) outstruct).1 =
        .ok (saslBuffer saslBuf) := by
  have htls' : ldap'.hasTls = false := by
    have hframe := (authenticate_frame lib ldap serverFqdn cred s₁ s₂).1
    rwa [hauth, htls] at hframe
  rw [gssapiBind_of_authenticate hauth] at hout
  obtain ⟨rfl, -, hres⟩ := by simpa only [Prod.mk.injEq] using hout
  obtain ⟨⟨k, hctx⟩, hparam⟩ := negotiate_ok hbuf rfl hres hrc
  rw [htls'] at hparam
  simp only [maybeWrap, codec, hctx, hparam, Bool.false_eq_true, if_false, if_true]
  split
  · exact Or.inl ⟨_, rfl⟩
  · rcases lib.wrap k (encodeInto outstruct) with e | ⟨saslBuf, k⟩
    · exact Or.inl ⟨_, rfl⟩
    · exact Or.inr ⟨_, rfl⟩

end GssapiLdap

end Ldap3
