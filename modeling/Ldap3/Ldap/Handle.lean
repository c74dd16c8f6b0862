import Ldap3.Conn.Driver
import Ldap3.Ldap.Request
import Ldap3.Ldap.Response

/-!
# Handles

The `Ldap` handle of `src/ldap.rs` with its modifiers, and `op_call`, which every operation goes
through. The modifiers are three fields of the handle that `with_controls`, `with_timeout` and
`with_search_options` fill in; `op_call` takes the controls when it sends the operation, and the
timeout when it waits for the response.

What happens to an operation outside the handle is an argument of `opCall`: whether there is a
free message id, whether the driver takes the operation, whether the time runs out before the
response comes, and the response. The driver itself is modelled in `Conn`, and so are the requests
to scrub an id that are sent after a timeout.
-/

namespace Ldap3

/-- `Ldap`, as far as its operations use it. -/
structure Ldap where
  lastId : RequestId
  timeout : Option ℕ
  controls : Option (List RawControl)
  searchOpts : Option SearchOptions
  deriving DecidableEq

/-- What happens to an operation outside the handle. -/
structure Served where
  /-- The message id, if one is free. -/
  id : Option RequestId
  /-- The driver is there to receive the operation. -/
  sent : Bool
  /-- The time runs out, if it is limited, before a response comes; and whether the driver is there
  to be told. -/
  elapsed : Option Bool
  /-- The response, unless its sender is dropped. -/
  reply : Option (Tag × List Control)

/-- What a call hands to the driver, and the time it gives it. -/
structure Sent where
  id : RequestId
  op : LdapOp
  req : Tag
  controls : Option (List RawControl)
  timeout : Option ℕ

namespace Ldap

/-- `Ldap::clone`. -/
def clone (_ : Ldap) : Ldap :=
  ⟨0, none, none, none⟩

def withSearchOptions (ldap : Ldap) (opts : SearchOptions) : Ldap :=
  { ldap with searchOpts := some opts }

def withControls (ldap : Ldap) (ctrls : List RawControl) : Ldap :=
  { ldap with controls := some ctrls }

def withTimeout (ldap : Ldap) (duration : ℕ) : Ldap :=
  { ldap with timeout := some duration }

end Ldap

/-- The second half of `op_call`: waiting for the response, and its conversion, which panics if the
response is malformed. -/
def Served.response (s : Served) (timeout : Option ℕ) : Except Failure LdapResultExt :=
  match timeout, s.elapsed with
  | some _, some true => .error (.err .timeout)
  | some _, some false => .error (.err .idScrubSend)
  | _, _ =>
    match s.reply with
    | none => .error (.err .resultRecv)
    | some response => (opResult response).mapError fun _ ↦ .panic

/-- `op_call`: the handle after it, what was sent, and the result. -/
def Ldap.opCall (ldap : Ldap) (op : LdapOp) (req : Tag) (s : Served) :
    Ldap × Option Sent × Except Failure LdapResultExt :=
  match s.id with
  -- No free slots.
  | none => (ldap, none, .error .panic)
  | some id =>
    let controls := ldap.controls
    let ldap := { ldap with lastId := id, controls := none }
    if s.sent then
      let timeout := ldap.timeout
      let ldap := { ldap with timeout := none }
      (ldap, some ⟨id, op, req, controls, timeout⟩, s.response timeout)
    else
      (ldap, none, .error (.err .opSend))

/-- The kind of the operation a call is sent as. -/
def Call.ldapOp {S : Type} : Call S → LdapOp
  | .search _ _ _ _ => .search
  | .unbind => .unbind
  | .abandon msgid => .abandon msgid
  | _ => .single

/-- The method of a call that is not a Search: the request is built first, and if that fails
`op_call` is not reached. The search options are left alone. -/
def Ldap.invoke {S : Type} [AsRef S] (ldap : Ldap) (call : Call S) (s : Served) :
    Ldap × Option Sent × Except Failure LdapResultExt :=
  match call.request {} with
  | .error e => (ldap, none, .error e)
  | .ok req => ldap.opCall call.ldapOp req s

/-! ### What is taken -/

section OpCall

variable {ldap : Ldap} {op : LdapOp} {req : Tag} {s : Served}

/-- No free id. -/
theorem opCall_of_id_none (h : s.id = none) :
    ldap.opCall op req s = (ldap, none, .error .panic) := by
  rw [Ldap.opCall, h]

theorem opCall_of_sent {id : RequestId} (h : s.id = some id) (hsent : s.sent = true) :
    ldap.opCall op req s = ({ ldap with lastId := id, controls := none, timeout := none },
      some ⟨id, op, req, ldap.controls, ldap.timeout⟩, s.response ldap.timeout) := by
  rw [Ldap.opCall, h]
  simp [hsent]

theorem opCall_of_not_sent {id : RequestId} (h : s.id = some id) (hsent : s.sent = false) :
    ldap.opCall op req s = ({ ldap with lastId := id, controls := none }, none,
      .error (.err .opSend)) := by
  rw [Ldap.opCall, h]
  simp [hsent]

end OpCall

end Ldap3
