import Ldap3.Conn.StartTls
import Ldap3.Lib.Utf8
import Ldap3.Util.Url

/-!
# Setting a connection up

`LdapConnAsync::from_url_with_settings` of `src/conn.rs`, with `new_unix` and `new_tcp`. A future
either comes to something or stays pending for ever, and what the operating system, the TLS library
and the peer do is in `Outside`: which sockets connect, what goes on while the connection is in the
clear, which handshakes succeed, and when the time runs out.

For TLS the socket is taken out of its `Framed` and put into a new one. The old one has a read
buffer, and what is left in it is lost with it.

**No downgrade** (`fromUrlWithSettings_secured`): who asks for TLS, by the scheme `ldaps` or with the
scheme `ldap` by the setting, has a connection with a handshake for the host of the URL, or none. A
connection with the scheme `ldapi` is in the clear, whatever the setting says. **Nothing is left over**
(`streams_of_established`): in every run on the new connection the driver handles what comes in
through it, and nothing that came in before. With a server that agrees to StartTLS the connection
is there (`fromUrlWithSettings_starttls`).
-/

namespace Ldap3

/-- `StdStream`. -/
inductive StdStream where
  | tcp
  | unix
  | invalid
  deriving DecidableEq

/-- `LdapConnSettings`, without the configuration that is handed on to the TLS library. -/
structure LdapConnSettings where
  connTimeout : Option ℕ
  starttls : Bool
  noTlsVerify : Bool
  stdStream : Option StdStream

/-- `LdapConnSettings::new`. -/
def LdapConnSettings.new : LdapConnSettings :=
  ⟨none, false, false, none⟩

/-- `Url` of the `url` crate, as far as it is read for a connection. -/
structure ServerUrl where
  scheme : String
  hostStr : Option String
  port : Option ℕ

/-- What happens outside while a connection is set up; what has no value never happens. -/
structure Outside where
  /-- `TcpStream::connect` to a host with a port. -/
  connectTcp : String → Option (Except String Unit)
  /-- `UnixStream::connect` to the path that the octets spell. -/
  connectUnix : List UInt8 → Option (Except String Unit)
  /-- An existing stream is made non-blocking and taken over. -/
  fromStd : Except String Unit
  /-- What goes on in the clear. -/
  clear : List ClearMove
  /-- The TLS handshake for a host name. -/
  handshake : LdapConnSettings → String → Option (Except String Unit)
  /-- The time runs out before there is a connection. -/
  elapsed : ℕ → Bool

/-- `ConnType`. -/
inductive ConnType where
  | tcp
  | tls
  | unix
  deriving DecidableEq

/-- A connection and its handle: the channels and the driver, the stream with its read buffer, and
`has_tls`. What happened in the clear is recorded; the program has no such record. -/
structure Established where
  core : Conn
  ctype : ConnType
  buf : List UInt8
  hasTls : Bool
  clear : Option Clear

/-- What a future comes to, without a value if it stays pending. -/
abbrev Pending (α : Type) : Type :=
  ExceptT SetupError Option α

namespace Pending

variable {α β : Type}

/-- A future of the outside. -/
def io (r : Option (Except String α)) : Pending α :=
  ExceptT.mk (r.map fun x ↦ x.mapError .io)

def tls (r : Option (Except String α)) : Pending α :=
  ExceptT.mk (r.map fun x ↦ x.mapError .tls)

/-- `tokio::time::timeout`. -/
def timeout (elapsed : Bool) (p : Pending α) : Pending α :=
  ExceptT.mk (some (if elapsed then .error (.ldap .timeout)
    else p.run.getD (.error (.ldap .timeout))))

/-- One future after another. -/
theorem bind_eq_ok {x : Pending α} {f : α → Pending β} {b : β}
    (h : (x >>= f).run = some (.ok b)) : ∃ a, x.run = some (.ok a) ∧ (f a).run = some (.ok b) := by
  rw [ExceptT.run_bind] at h
  obtain ⟨r, hr, h⟩ := Option.bind_eq_some_iff.1 h
  cases r with
  | ok a => exact ⟨a, hr, h⟩
  | error e => cases Option.some.inj h

theorem bind_of_ok {x : Pending α} {a : α} (h : x.run = some (.ok a)) (f : α → Pending β) :
    (x >>= f).run = (f a).run := by
  rw [ExceptT.run_bind, h]
  rfl

theorem pure_eq_ok {a b : α} (h : (pure a : Pending α).run = some (.ok b)) : a = b :=
  Except.ok.inj (Option.some.inj h)

/-- A future that comes to something in time. -/
theorem timeout_of_some {p : Pending α} {r : Except SetupError α} (h : p.run = some r) :
    (p.timeout false).run = some r := by
  show some (p.run.getD _) = some r
  rw [h]
  rfl

theorem tls_eq_ok {r : Option (Except String α)} {a : α} (h : (tls r).run = some (.ok a)) :
    r = some (.ok a) := by
  obtain ⟨x, rfl, hx⟩ := Option.map_eq_some_iff.1 h
  cases x with
  | ok b => rw [Except.ok.inj hx]
  | error msg => cases hx

theorem timeout_eq_ok {elapsed : Bool} {p : Pending α} {a : α}
    (h : (p.timeout elapsed).run = some (.ok a)) : p.run = some (.ok a) := by
  have h := Option.some.inj h
  split at h
  · cases h
  · rcases hp : p.run with - | r
    · rw [hp] at h
      cases h
    · rw [hp] at h
      exact congrArg some h

end Pending

namespace LdapConnAsync

/-- `conn_pair`. -/
def connPair (ctype : ConnType) : Established :=
  ⟨Conn.init, ctype, [], false, none⟩

/-- `percent_decode(..).decode_utf8_lossy()`. -/
def decodePath (path : List Char) : List UInt8 :=
  Utf8.decodeLossy (path.decodeEscapes '%' hexChar String.utf8EncodeChar)

/-- The stream of `new_unix`. -/
def unixStream (out : Outside) (url : ServerUrl) (settings : LdapConnSettings) : Pending Unit :=
  match settings.stdStream with
  | none =>
    let path := url.hostStr.getD ""
    if path = "" then throw .emptyUnixPath
    else if ':' ∈ path.toList then throw .portInUnixPath
    else .io (out.connectUnix (decodePath path.toList))
  | some .unix => .io (some out.fromStd)
  | some .tcp | some .invalid => throw .mismatchedStreamType

def newUnix (out : Outside) (url : ServerUrl) (settings : LdapConnSettings) :
    Pending Established := do
  unixStream out url settings
  return connPair .unix

/-- The scheme, with StartTLS for one of its own, the settings and the default port. -/
inductive Scheme where
  | ldap
  | starttls
  | ldaps
  deriving DecidableEq

/-- How the connection is to be made. -/
def scheme (url : ServerUrl) (settings : LdapConnSettings) :
    Pending (Scheme × LdapConnSettings × ℕ) :=
  if url.scheme = "ldap" then
    return (if settings.starttls then .starttls else .ldap, settings, 389)
  else if url.scheme = "ldaps" then
    return (.ldaps, { settings with starttls := false }, 636)
  else
    throw (.unknownScheme url.scheme)

/-- The name of the host. -/
def serverName (host : String) : String :=
  if host = "" then "localhost" else host

def hostname (url : ServerUrl) : Pending String :=
  match url.hostStr with
  | some h => return serverName h
  | none => throw .panic

/-- The stream of `new_tcp`. -/
def tcpStream (out : Outside) (hostPort : String) (settings : LdapConnSettings) : Pending Unit :=
  match settings.stdStream with
  | none => .io (out.connectTcp hostPort)
  | some .tcp => .io (some out.fromStd)
  | some .unix | some .invalid => throw .mismatchedStreamType

/-- `single_op` and `extended(StartTLS)` on a new connection, waited for together. -/
def startTls (out : Outside) (conn : Established) : Pending Established :=
  match Machine.run Clear.step Machine.any Clear.init out.clear with
  | none => ExceptT.mk none
  | some s => do
    let ext ← ExceptT.mk s.joined
    if ext.result.rc = 0 then
      return { conn with core := s.core, buf := s.buf, clear := some s }
    else
      throw (.ldapResult ext.result)

/-- The handshake on the socket, which is taken out of its `Framed`. The new one has a read buffer
of its own. -/
def secure (out : Outside) (settings : LdapConnSettings) (hostname : String)
    (conn : Established) : Pending Established := do
  Pending.tls (out.handshake settings hostname)
  return { conn with ctype := .tls, buf := [], hasTls := true }

def newTcp (out : Outside) (url : ServerUrl) (settings : LdapConnSettings) :
    Pending Established := do
  let (scheme, settings, port) ← scheme url settings
  let hostname ← hostname url
  tcpStream out (hostname ++ ":" ++ toString (url.port.getD port)) settings
  match scheme with
  | .ldap => return connPair .tcp
  | .ldaps => secure out settings hostname (connPair .tcp)
  | .starttls => startTls out (connPair .tcp) >>= secure out settings hostname

def fromUrlWithSettings (out : Outside) (settings : LdapConnSettings) (url : ServerUrl) :
    Pending Established :=
  if url.scheme = "ldapi" then
    newUnix out url settings
  else
    let connFuture := newTcp out url { settings with connTimeout := none }
    match settings.connTimeout with
    | some timeout => connFuture.timeout (out.elapsed timeout)
    | none => connFuture

/-! ### How a connection comes about -/

variable {out : Outside} {settings : LdapConnSettings} {url : ServerUrl} {e : Established}

/-- The handshake was for the host of the URL, with the verification the settings ask for. -/
def Shaken (out : Outside) (settings : LdapConnSettings) (url : ServerUrl) : Prop :=
  ∃ host settings', url.hostStr = some host ∧ settings'.noTlsVerify = settings.noTlsVerify ∧
    out.handshake settings' (serverName host) = some (.ok ())

/-- What `from_url_with_settings` returns. -/
inductive Outcome (out : Outside) (settings : LdapConnSettings) (url : ServerUrl) :
    Established → Prop
  | unix (hscheme : url.scheme = "ldapi") : Outcome out settings url (connPair .unix)
  | plain (hscheme : url.scheme = "ldap") (hset : settings.starttls = false) :
      Outcome out settings url (connPair .tcp)
  | ldaps (hscheme : url.scheme = "ldaps") (hshaken : Shaken out settings url) :
      Outcome out settings url ⟨Conn.init, .tls, [], true, none⟩
  | starttls (hscheme : url.scheme = "ldap") (hset : settings.starttls = true)
      (hshaken : Shaken out settings url) {s : Clear} {tag : Tag} {controls : List Control}
      {ext : LdapResultExt} (hans : s.Answered tag controls ext) (hrc : ext.result.rc = 0) :
      Outcome out settings url ⟨s.core, .tls, [], true, some s⟩

/-- A path is what the URL encodes, in whichever way. -/
theorem decodePath_of_encodes {path : List Char} {s : String} (h : PercentEncodes path s) :
    decodePath path = asBytes s := by
  obtain ⟨l, hl⟩ := isUtf8_asBytes s
  rw [decodePath, h.decodeEscapes, hl]
  exact Utf8.decodeLossy_text l

/-- **The socket of an `ldapi` URL** is the one with the path that the URL encodes. -/
theorem unixStream_of_encodes {path s : String} (hstd : settings.stdStream = none)
    (hhost : url.hostStr = some path) (hne : path ≠ "") (hport : ':' ∉ path.toList)
    (h : PercentEncodes path.toList s) :
    unixStream out url settings = .io (out.connectUnix (asBytes s)) := by
  rw [unixStream, hstd, hhost]
  simp only [Option.getD_some, if_neg hne, if_neg hport, decodePath_of_encodes h]

theorem startTls_eq_ok {conn : Established} (h : (startTls out conn).run = some (.ok e)) :
    ∃ s tag controls ext, Clear.Answered s tag controls ext ∧ ext.result.rc = 0 ∧
      e = { conn with core := s.core, buf := s.buf, clear := some s } := by
  rw [startTls] at h
  rcases hrun : Machine.run Clear.step Machine.any Clear.init out.clear with - | s
  · rw [hrun] at h
    cases h
  · rw [hrun] at h
    obtain ⟨ext, hjoined, h⟩ := Pending.bind_eq_ok h
    have hstage := Clear.Stage.of_reach (Machine.reach_of_run hrun)
    obtain ⟨tag, controls, hans⟩ := hstage.of_joined hjoined
    split at h
    · rename_i hrc
      exact ⟨s, tag, controls, ext, hans, hrc, (Pending.pure_eq_ok h).symm⟩
    · cases Option.some.inj h

theorem secure_eq_ok {conn : Established} {name : String}
    (h : (secure out settings name conn).run = some (.ok e)) :
    out.handshake settings name = some (.ok ()) ∧
      e = { conn with ctype := .tls, buf := [], hasTls := true } := by
  obtain ⟨⟨⟩, htls, h⟩ := Pending.bind_eq_ok h
  exact ⟨Pending.tls_eq_ok htls, (Pending.pure_eq_ok h).symm⟩

theorem hostname_eq_ok {name : String} (h : (hostname url).run = some (.ok name)) :
    ∃ host, url.hostStr = some host ∧ name = serverName host := by
  rw [hostname] at h
  split at h
  · rename_i host hhost
    exact ⟨host, hhost, (Pending.pure_eq_ok h).symm⟩
  · cases Option.some.inj h

theorem outcome_of_newTcp (h : (newTcp out url settings).run = some (.ok e)) :
    Outcome out settings url e := by
  obtain ⟨⟨sch, settings', port⟩, hscheme, hrest⟩ := Pending.bind_eq_ok h
  obtain ⟨name, hname, hrest'⟩ := Pending.bind_eq_ok hrest
  obtain ⟨⟨⟩, -, hconn⟩ := Pending.bind_eq_ok hrest'
  obtain ⟨host, hhost, rfl⟩ := hostname_eq_ok hname
  clear h hrest hrest' hname
  rw [scheme] at hscheme
  split at hscheme
  · rename_i hldap
    have hplain := Pending.pure_eq_ok hscheme
    cases hset : settings.starttls with
    | false =>
      rw [hset] at hplain
      cases hplain
      exact Pending.pure_eq_ok hconn ▸ .plain hldap hset
    | true =>
      rw [hset] at hplain
      cases hplain
      obtain ⟨conn, hclear, htls⟩ := Pending.bind_eq_ok hconn
      obtain ⟨s, tag, controls, ext, hans, hrc, rfl⟩ := startTls_eq_ok hclear
      obtain ⟨hshake, rfl⟩ := secure_eq_ok htls
      exact .starttls hldap hset ⟨host, settings, hhost, rfl, hshake⟩ hans hrc
  · split at hscheme
    · rename_i hldaps
      cases Pending.pure_eq_ok hscheme
      obtain ⟨hshake, rfl⟩ := secure_eq_ok hconn
      exact .ldaps hldaps ⟨host, { settings with starttls := false }, hhost, rfl, hshake⟩
    · cases Option.some.inj hscheme

theorem outcome_of_fromUrlWithSettings
    (h : (fromUrlWithSettings out settings url).run = some (.ok e)) :
    Outcome out settings url e := by
  rw [fromUrlWithSettings] at h
  split at h
  · rename_i hscheme
    obtain ⟨⟨⟩, -, h⟩ := Pending.bind_eq_ok h
    exact Pending.pure_eq_ok h ▸ .unix hscheme
  · have hoc : (newTcp out url { settings with connTimeout := none }).run = some (.ok e) := by
      simp only at h
      split at h
      · exact Pending.timeout_eq_ok h
      · exact h
    cases outcome_of_newTcp hoc with
    | unix hscheme => exact .unix hscheme
    | plain hscheme hset => exact .plain hscheme hset
    | ldaps hscheme hshaken => exact .ldaps hscheme hshaken
    | starttls hscheme hset hshaken hans hrc =>
      refine .starttls hscheme ?_ ?_ hans hrc
      · exact hset
      · exact hshaken

/-- **No downgrade.** A connection that comes about has TLS exactly if the scheme is `ldaps`, or it is
`ldap` and the setting asks for StartTLS, and then the handshake was for the host of the URL. With the
scheme `ldapi` it is a Unix socket without TLS, also if the setting asks for StartTLS. It has a past
in the clear exactly if the scheme is `ldap` and the setting asks for StartTLS; then a server reads
what went out as StartTLS, and the first message that came in has the id of the request and says
that it succeeded. -/
theorem fromUrlWithSettings_secured
    (h : (fromUrlWithSettings out settings url).run = some (.ok e)) :
    (e.ctype = .tls ↔ url.scheme = "ldaps" ∨ url.scheme = "ldap" ∧ settings.starttls = true) ∧
    (e.ctype = .unix ↔ url.scheme = "ldapi") ∧
    (e.hasTls = true ↔ e.ctype = .tls) ∧
    (e.ctype = .tls → Shaken out settings url) ∧
    (e.clear.isSome ↔ url.scheme = "ldap" ∧ settings.starttls = true) ∧
    ∀ s, e.clear = some s →
      (∀ x, Grammar.ReadsExtended Grammar.requestExops s.sent x ↔ x = .startTLS) ∧
        ∃ tag controls ext, decodeInner s.received = (.ok (some (1, tag, controls)), s.buf) ∧
          opResult (tag, controls) = .ok ext ∧ ext.result.rc = 0 := by
  cases outcome_of_fromUrlWithSettings h with
  | unix hscheme => simp [connPair, hscheme]
  | plain hscheme hset => simp [connPair, hscheme, hset]
  | ldaps hscheme hshaken => simp [hscheme, hshaken]
  | starttls hscheme hset hshaken hans hrc =>
    refine ⟨by simp [hscheme, hset], by simp [hscheme], by simp, fun _ ↦ hshaken,
      by simp [hscheme, hset], ?_⟩
    intro s hs
    obtain rfl := Option.some.inj hs
    exact ⟨hans.sent_eq ▸ StartTLS.readsExtended_request, _, _, _, hans.read, hans.result, hrc⟩

/-- A server that grants StartTLS, and sends octets in the clear after it. The handshake succeeds
for its own name. -/
def granting : Outside where
  connectTcp hostPort := if hostPort = "a:389" then some (.ok ()) else none
  connectUnix _ := none
  fromStd := .error "not a socket"
  clear := [.call, .send, .read [0x30, 0x0C, 0x02, 0x01],
    .read [0x01, 0x78, 0x07, 0x0A, 0x01, 0x00, 0x04, 0x00, 0x04, 0x00, 0x30], .next]
  handshake _ host := some (if host = "a" then .ok () else .error "host name")
  elapsed _ := false

def startTlsSettings : LdapConnSettings :=
  { LdapConnSettings.new with starttls := true }

def exampleUrl : ServerUrl :=
  ⟨"ldap", some "a", none⟩

theorem fromUrlWithSettings_secured_granting :
    ∃ e s, (fromUrlWithSettings granting startTlsSettings exampleUrl).run = some (.ok e) ∧
      e.clear = some s ∧ e.ctype = .tls ∧ Shaken granting startTlsSettings exampleUrl ∧
      ∀ x, Grammar.ReadsExtended Grammar.requestExops s.sent x ↔ x = .startTLS := by
  have hsome : (fromUrlWithSettings granting startTlsSettings exampleUrl).run.map
      (fun r ↦ r.map fun e ↦ e.clear.isSome) = some (.ok true) := by
    decide +kernel
  obtain ⟨r, hr, hclear⟩ := Option.map_eq_some_iff.1 hsome
  cases r with
  | ok e =>
    obtain ⟨s, hs⟩ := Option.isSome_iff_exists.1 (Except.ok.inj hclear)
    obtain ⟨htype, -, -, hshaken, -, hall⟩ := fromUrlWithSettings_secured hr
    have htls : e.ctype = .tls := htype.2 (.inr ⟨rfl, rfl⟩)
    exact ⟨e, s, hr, hs, htls, hshaken htls, (hall s hs).1⟩
  | error e => cases hclear

/-! ### What the connection is like -/

/-- The driver's part of a connection is at rest. -/
structure AtRest (c : Conn) : Prop where
  reach : Machine.Reach Conn.step Machine.any Conn.init c
  running : c.status = .running
  rx_eq : c.rx = []
  idScrubRx_eq : c.idScrubRx = []
  inUse_eq : c.msgmap.inUse = ∅
  registered : ∀ id, ¬c.Registered id

theorem atRest_init : AtRest Conn.init where
  reach := .init
  running := rfl
  rx_eq := rfl
  idScrubRx_eq := rfl
  inUse_eq := rfl
  registered _ h := h.elim (fun h ↦ h rfl) fun h ↦ h rfl

theorem atRest_answered (tag : Tag) (controls : List Control) :
    AtRest (Clear.answered tag controls) where
  reach := Clear.reach_answered tag controls
  running := rfl
  rx_eq := rfl
  idScrubRx_eq := rfl
  inUse_eq := rfl
  registered id h := by
    have hresult : (Clear.answered tag controls).resultmap id = none := by
      show Function.update (Function.update (fun _ ↦ none) 1 (some 0)) 1 none id = none
      rw [Function.update_idem, Function.update_eq_self]
    exact h.elim (fun h ↦ h hresult) fun h ↦ h rfl

theorem Outcome.atRest (h : Outcome out settings url e) : AtRest e.core ∧ e.buf = [] := by
  cases h with
  | unix | plain | ldaps => exact ⟨atRest_init, rfl⟩
  | starttls _ _ _ hans =>
    refine ⟨?_, rfl⟩
    rw [hans.core_eq]
    exact atRest_answered _ _

end LdapConnAsync

/-- The connection and its handle, on a new stream. -/
def Established.wire (e : Established) : Wire where
  world := { World.init with
    core := e.core
    handles := Function.update World.init.handles 0
      { Handle.new with lastId := e.core.msgmap.last } }
  buf := e.buf
  eof := false
  received := []
  sent := []

namespace LdapConnAsync

/-- The past of a connection, as a stream that was read and written to its end. -/
theorem Outcome.past (h : Outcome out settings url e) :
    ∃ r t, Wire.Streams (e.wire.after r t) := by
  have hmapped := h.atRest.1.reach.invariant Conn.Mapped.init fun h _ hs ↦ h.step hs
  cases h with
  | unix | plain | ldaps =>
    exact ⟨[], [], hmapped, ⟨[], .nil, List.nil_prefix, Nat.zero_le _, fun _ ↦ rfl⟩, [],
      List.nodup_nil, fun _ h ↦ absurd h List.not_mem_nil, List.nil_prefix, Nat.zero_le _,
      List.nil_prefix, fun _ ↦ ⟨rfl, rfl⟩⟩
  | @starttls _ _ _ s tag controls _ hans _ =>
    obtain ⟨w, -, hdec⟩ := exact_decodeInner hans.read
    have hmsgs : s.core.messages = [(1, tag, controls)] := by rw [hans.core_eq]; rfl
    have hwritten : s.core.written = [0] := by rw [hans.core_eq]; rfl
    have hrequest : s.core.request 0 = StartTLS.request := by rw [hans.core_eq]; rfl
    have htaken : 0 < s.core.numOps ∧ (s.core.ops 0).phase = .taken := by
      rw [hans.core_eq]
      exact ⟨Nat.one_pos, rfl⟩
    refine ⟨w, StartTLS.request, hmapped, ⟨[(1, tag, controls)], ?_⟩, [0], ?_⟩
    · have htakes : Framing.Takes decodeInner (w ++ []) [(1, tag, controls)] [] := by
        rw [List.append_nil]
        exact .cons hdec .nil
      exact ⟨htakes, hmsgs ▸ List.prefix_rfl, hmsgs ▸ Nat.le_succ _, fun _ ↦ hmsgs⟩
    · have hsent : StartTLS.request ++ [] = ([0].map s.core.request).flatten := by
        rw [List.map_singleton, List.flatten_singleton, hrequest, List.append_nil]
      refine ⟨List.nodup_singleton 0, ?_, hwritten ▸ List.prefix_rfl, hwritten ▸ Nat.le_succ _,
        hsent ▸ List.prefix_rfl, fun _ ↦ ⟨hwritten, hsent⟩⟩
      intro o ho
      rw [List.mem_singleton.1 ho]
      exact htaken

variable {n : Wire}

/-- **Nothing is left over.** A connection that comes about has an empty read buffer and a driver
at rest, all ids free. In every run on it the driver handles what comes in through it, from its
first octet on, and sends requests that were not sent before: nothing that came in or went out in
the clear has a part in it. -/
theorem streams_of_established (h : (fromUrlWithSettings out settings url).run = some (.ok e))
    (hreach : Machine.Reach Wire.step Machine.any e.wire n) :
    e.buf = [] ∧ AtRest e.core ∧ Wire.Since e.wire n := by
  have houtcome := outcome_of_fromUrlWithSettings h
  obtain ⟨hrest, hbuf⟩ := houtcome.atRest
  obtain ⟨r, t, hpast⟩ := houtcome.past
  exact ⟨hbuf, hrest, Wire.since_of_reach hpast hbuf ⟨rfl, rfl⟩ hrest.running hreach⟩

/-- After the octets that came in the clear are gone, a request goes out. -/
theorem streams_of_established_granting :
    ∃ e n, (fromUrlWithSettings granting startTlsSettings exampleUrl).run = some (.ok e) ∧
      Machine.run Wire.step Machine.any e.wire
        [.handle (.alloc 0 .single (.octetString 10 .application []) none), .handle (.send 0),
          .send, .read [0x30, 0x0C, 0x02, 0x01, 0x02, 0x6B, 0x07, 0x0A, 0x01, 0x00, 0x04, 0x00,
            0x04, 0x00],
          .next] = some n ∧
      n.driver.status = .running ∧ e.buf = [] ∧ Wire.Since e.wire n := by
  have hsome : (fromUrlWithSettings granting startTlsSettings exampleUrl).run.map
      (fun r ↦ r.map fun e ↦ (Machine.run Wire.step Machine.any e.wire
        [.handle (.alloc 0 .single (.octetString 10 .application []) none), .handle (.send 0),
          .send, .read [0x30, 0x0C, 0x02, 0x01, 0x02, 0x6B, 0x07, 0x0A, 0x01, 0x00, 0x04, 0x00,
            0x04, 0x00],
          .next]).map fun n ↦ n.driver.status) = some (.ok (some .running)) := by
    decide +kernel
  obtain ⟨r, hr, hrun⟩ := Option.map_eq_some_iff.1 hsome
  cases r with
  | ok e =>
    obtain ⟨n, hn, hstatus⟩ := Option.map_eq_some_iff.1 (Except.ok.inj hrun)
    obtain ⟨hbuf, -, hsince⟩ := streams_of_established hr (Machine.reach_of_run hn)
    exact ⟨e, n, hr, hn, hstatus, hbuf, hsince⟩
  | error e => cases hrun

/-! ### A server that answers -/

section Answers

variable {m : ServerMessage} {r : Response} {rc : List UInt8}

/-- A socket for the URL is there. -/
def Connects (out : Outside) (settings : LdapConnSettings) (hostPort : String) : Prop :=
  settings.stdStream = none ∧ out.connectTcp hostPort = some (.ok ()) ∨
    settings.stdStream = some .tcp ∧ out.fromStd = .ok ()

theorem tcpStream_of_connects {hostPort : String} (h : Connects out settings hostPort) :
    (tcpStream out hostPort settings).run = some (.ok ()) := by
  rcases h with ⟨hstd, hconn⟩ | ⟨hstd, hconn⟩
  · rw [tcpStream, hstd]
    show (out.connectTcp hostPort).map _ = _
    rw [hconn]
    rfl
  · rw [tcpStream, hstd]
    show some (out.fromStd.mapError _) = _
    rw [hconn]
    rfl

/-- What becomes of the wait decides. -/
theorem startTls_of_joined (conn : Established) {s : Clear}
    (hrun : Machine.run Clear.step Machine.any Clear.init out.clear = some s)
    {ext : LdapResultExt} (hjoined : s.joined = some (.ok ext)) :
    (startTls out conn).run =
      if ext.result.rc = 0 then
        some (.ok { conn with core := s.core, buf := s.buf, clear := some s })
      else
        some (.error (.ldapResult ext.result)) := by
  rw [startTls, hrun]
  simp only
  rw [Pending.bind_of_ok (x := ExceptT.mk s.joined) hjoined]
  split <;> rfl

theorem secure_of_handshake {name : String} {conn : Established}
    (h : out.handshake settings name = some (.ok ())) : (secure out settings name conn).run =
      some (.ok { conn with ctype := .tls, buf := [], hasTls := true }) := by
  have htls : (Pending.tls (out.handshake settings name)).run = some (.ok ()) := by
    rw [h]
    rfl
  rw [secure, Pending.bind_of_ok htls]
  rfl

theorem newTcp_starttls {host : String} (hscheme : url.scheme = "ldap")
    (hset : settings.starttls = true) (hhost : url.hostStr = some host)
    (hconn : Connects out settings (serverName host ++ ":" ++ toString (url.port.getD 389))) :
    (newTcp out url settings).run =
      (startTls out (connPair .tcp) >>= secure out settings (serverName host)).run := by
  have hsch : (scheme url settings).run = some (.ok (.starttls, settings, 389)) := by
    rw [scheme, if_pos hscheme, hset]
    rfl
  have hname : (hostname url).run = some (.ok (serverName host)) := by
    rw [hostname, hhost]
    rfl
  rw [newTcp, Pending.bind_of_ok hsch]
  simp only
  rw [Pending.bind_of_ok hname, Pending.bind_of_ok (tcpStream_of_connects hconn)]

/-- In time, a future that comes to something is the connection. -/
theorem fromUrlWithSettings_of_newTcp {res : Except SetupError Established}
    (hscheme : url.scheme ≠ "ldapi")
    (hintime : ∀ t, settings.connTimeout = some t → out.elapsed t = false)
    (h : (newTcp out url { settings with connTimeout := none }).run = some res) :
    (fromUrlWithSettings out settings url).run = some res := by
  rw [fromUrlWithSettings, if_neg hscheme]
  simp only
  split
  · rename_i t ht
    rw [hintime t ht]
    exact Pending.timeout_of_some h
  · exact h

/-- **A server that answers.** A connection that asks for StartTLS is written the request, and its
response comes in, in any encoding and any pieces, with anything else after it. If it says that the
operation succeeded, and the handshake succeeds, there is a connection with TLS, and what came after
the response is gone; and if it says anything else, the error is what it says. -/
theorem fromUrlWithSettings_starttls {host : String} {cs : List (List UInt8)}
    {q rest : List UInt8} (hscheme : url.scheme = "ldap") (hset : settings.starttls = true)
    (hhost : url.hostStr = some host)
    (hconn : Connects out settings (serverName host ++ ":" ++ toString (url.port.getD 389)))
    (hintime : ∀ t, settings.connTimeout = some t → out.elapsed t = false)
    (hid : m.id = 1) (hrc : Response.Denotes rc r.rc) (hop : m.op = r.opTag rc)
    (hcs : ∀ c ∈ cs, c ≠ []) (hq : q ≠ []) (heq : cs.flatten ++ q = m.octets)
    (hclear : out.clear = [.call, .send] ++ cs.map .read ++ [.read (q ++ rest), .next])
    (hshake : out.handshake { settings with connTimeout := none } (serverName host) =
      some (.ok ())) :
    (r.rc = 0 → ∃ e s, (fromUrlWithSettings out settings url).run = some (.ok e) ∧
      e.ctype = .tls ∧ e.clear = some s ∧ s.received = m.octets ++ rest ∧ s.buf = rest ∧
      e.buf = []) ∧
    (r.rc ≠ 0 → ∃ result, result.rc.toNat = r.rc ∧
      (fromUrlWithSettings out settings url).run = some (.error (.ldapResult result))) := by
  have hrun := Clear.run_answered hid hcs hq heq rest
  rw [← hclear] at hrun
  have hjoined := Clear.joined_answered hrc hop rest (m.octets ++ rest) StartTLS.request
  have hwait := startTls_of_joined (connPair .tcp) hrun hjoined
  have htcp : (newTcp out url { settings with connTimeout := none }).run = _ :=
    newTcp_starttls hscheme hset hhost hconn
  have hldapi : url.scheme ≠ "ldapi" := by rw [hscheme]; decide
  have hcode : (r.result m.decoded.2.2).result.rc.toNat = r.rc :=
    UInt32.toNat_ofNat_of_lt (r.rc_lt.trans (by decide))
  constructor
  · intro hzero
    have hrc0 : (r.result m.decoded.2.2).result.rc = 0 := UInt32.toNat_inj.1 (hcode.trans hzero)
    rw [if_pos hrc0] at hwait
    rw [Pending.bind_of_ok hwait, secure_of_handshake hshake] at htcp
    exact ⟨_, _, fromUrlWithSettings_of_newTcp hldapi hintime htcp, rfl, rfl, rfl, rfl, rfl⟩
  · intro hne
    have hrc0 : (r.result m.decoded.2.2).result.rc ≠ 0 := by
      rintro h0
      rw [h0] at hcode
      exact hne hcode.symm
    rw [if_neg hrc0] at hwait
    have herror : (newTcp out url { settings with connTimeout := none }).run =
        some (.error (.ldapResult (r.result m.decoded.2.2).result)) := by
      rw [htcp, ExceptT.run_bind, hwait]
      rfl
    exact ⟨_, hcode, fromUrlWithSettings_of_newTcp hldapi hintime herror⟩

end Answers

/-- The response of the server that grants StartTLS. -/
def startTlsResult : Response :=
  { Response.bindResponse with op := 24 }

theorem ber_startTlsResult : Ber (serverEnvelope [1] (startTlsResult.opTag [0]) none)
    (encodeInto (serverEnvelope [1] (startTlsResult.opTag [0]) none)) := by
  refine ber_encodeInner ?_ (by decide +kernel)
  simp [serverEnvelope, startTlsResult, Response.bindResponse, Response.opTag, Response.components,
    StructureTag.IdsLe, Types.sequence, Types.integer, Types.enumerated, Types.octetString]

def startTlsMessage : ServerMessage where
  id := 1
  op := startTlsResult.opTag [0]
  controls := none
  idOctets := [1]
  octets := encodeInto (serverEnvelope [1] (startTlsResult.opTag [0]) none)
  id_range := firstId_range
  denotes := denotes_firstId
  op_cls := rfl
  ber := ber_startTlsResult
  fits := by decide +kernel

theorem fromUrlWithSettings_starttls_granting :
    ∃ e s, (fromUrlWithSettings granting startTlsSettings exampleUrl).run = some (.ok e) ∧
      e.ctype = .tls ∧ e.clear = some s ∧ s.buf = [0x30] ∧ e.buf = [] := by
  obtain ⟨hok, -⟩ := @fromUrlWithSettings_starttls startTlsMessage startTlsResult [0]
    granting startTlsSettings exampleUrl "a" [[0x30, 0x0C, 0x02, 0x01]]
    [0x01, 0x78, 0x07, 0x0A, 0x01, 0x00, 0x04, 0x00, 0x04, 0x00] [0x30] rfl rfl rfl
    (.inl ⟨rfl, rfl⟩) (fun _ _ ↦ rfl) rfl ⟨by decide, by decide⟩ rfl (by simp) (by simp)
    (by decide +kernel) rfl rfl
  obtain ⟨e, s, hrun, htls, hclear, -, hbuf, hnone⟩ := hok rfl
  exact ⟨e, s, hrun, htls, hclear, hbuf, hnone⟩

end LdapConnAsync

end Ldap3
