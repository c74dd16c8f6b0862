import Ldap3.Protocol
import Mathlib.Logic.Function.Iterate

/-!
# The message codec with a SASL security layer

`src/protocol.rs` in the build with the `gssapi` feature. A security layer cuts the stream into
buffers of its own: each is a length of four octets and that many octets, which the security
context turns into octets of the LDAP stream. `decode` keeps what is left of a buffer in the receive
buffer, with `has_decoded_data` as the note that its octets are decoded already.

The security context is that of another library. It is a parameter here, `ClientCtx`, and what is
assumed of it is a `Peer`: a party whose buffers it opens one by one, taking exactly their octets.

There is only one buffer for two streams, so `decode` works as long as they do not meet in it.
**Reading** (`feeds_sasl_iff`): when every SASL buffer holds whole messages, the messages come out
if and only if no read ends inside the length of a buffer, and a buffer with several messages is
the end of a read.
-/

open Nom Framing

namespace Ldap3

/-! ### The codec -/

/-- `ClientCtx`, with states of the type `κ`. -/
structure ClientCtx (κ : Type) where
  /-- The octets behind the given number of octets at the front of a buffer, the context after it,
  and the rest of the buffer. -/
  unwrapIov : κ → ℕ → List UInt8 → Except String (List UInt8 × κ × List UInt8)
  /-- The octets that go on the wire for a buffer, and the context after it. -/
  wrap : κ → List UInt8 → Except String (List UInt8 × κ)

/-- `LdapCodec`. -/
structure LdapCodec (κ : Type) where
  hasDecodedData : Bool
  saslWrap : Bool
  saslMaxSend : ℕ
  clientCtx : Option κ

variable {κ : Type}

/-- `LdapCodec::decode`. -/
def decode (cc : ClientCtx κ) : Codec (LdapCodec κ) Fault UInt8 Decoded := fun self buf ↦
  if ¬self.saslWrap ∨ buf = [] then
    let (res, buf) := decodeInner buf
    (res, self, buf)
  else if self.hasDecodedData then
    let (res, buf) := decodeInner buf
    (res, if res.isOk ∧ buf = [] then { self with hasDecodedData := false } else self, buf)
  else if buf.length < 4 then
    (.error (.error "invalid SASL buffer"), self, buf)
  else
    let saslLen := BigEndian.value (buf.take 4)
    if buf.length - 4 < saslLen then
      (.ok none, self, buf)
    else
      let buf := buf.drop 4
      match self.clientCtx with
      | none => (.error (.panic "client Option mut ref"), self, buf)
      | some ctx =>
        match cc.unwrapIov ctx saslLen buf with
        | .error e => (.error (.error ("gss_unwrap error: " ++ e)), self, buf)
        | .ok (decoded, ctx, buf) =>
          let self := { self with clientCtx := some ctx }
          let (res, decoded) := decodeInner decoded
          if res.isOk ∧ decoded ≠ [] ∧ buf = [] then
            (res, { self with hasDecodedData := true }, decoded)
          else
            (res, self, buf)

/-- A buffer on the wire: its length, and its octets. -/
def saslBuffer (w : List UInt8) : List UInt8 :=
  BigEndian.octets 4 w.length ++ w

/-- `maybe_wrap`: the octets appended to the output. -/
def maybeWrap (cc : ClientCtx κ) (self : LdapCodec κ) (outstruct : StructureTag) :
    Except Fault (List UInt8) × LdapCodec κ :=
  let outBuf := encodeInto outstruct
  if self.saslWrap then
    match self.clientCtx with
    | none => (.error (.panic "client Option mut ref"), self)
    | some ctx =>
      if self.saslMaxSend > 0 ∧ outBuf.length > self.saslMaxSend then
        (.error (.error ("buffer too large for GSSAPI: " ++ toString outBuf.length ++ " > " ++
          toString self.saslMaxSend)), self)
      else
        match cc.wrap ctx outBuf with
        | .error e => (.error (.error ("gss_wrap error: " ++ e)), self)
        | .ok (saslBuf, ctx) => (.ok (saslBuffer saslBuf), { self with clientCtx := some ctx })
  else
    (.ok outBuf, self)

/-! ### The other side -/

/-- A party whose buffers the context opens: `wrap` is what it sends for some octets, and `next`
the state of the context after a buffer. -/
structure Peer (cc : ClientCtx κ) where
  wrap : κ → List UInt8 → List UInt8
  next : κ → κ
  unwrapIov_wrap : ∀ k v rest,
    cc.unwrapIov k (wrap k v).length (wrap k v ++ rest) = .ok (v, next k, rest)

/-- The octets behind a buffer with some messages. -/
def plain (g : List Message) : List UInt8 :=
  (g.map Message.encoded).flatten

namespace Peer

variable {cc : ClientCtx κ} (peer : Peer cc)

/-- The buffers for a list of octet strings, wrapped one after the other. -/
def wrapped : κ → List (List UInt8) → List (List UInt8)
  | _, [] => []
  | k, v :: vs => peer.wrap k v :: wrapped (peer.next k) vs

/-- The octets sent for a list of octet strings. -/
def stream (k : κ) (vs : List (List UInt8)) : List UInt8 :=
  ((peer.wrapped k vs).map saslBuffer).flatten

end Peer

/-! ### Cuts -/

/-- The places in the stream where the reads end; the first starts at `off`. -/
def cuts : ℕ → List (List UInt8) → List ℕ
  | _, [] => []
  | off, c :: cs => (off + c.length) :: cuts (off + c.length) cs

/-- The reads suit the buffers, given by their lengths on the wire and their numbers of messages:
no read ends one to three octets behind the start of a buffer, and one ends behind each buffer with
several messages. -/
def CutsOk (cs : List ℕ) : (start : ℕ) → List (ℕ × ℕ) → Prop
  | _, [] => True
  | start, (len, count) :: fs =>
    (∀ n ∈ cs, start < n → n < start + len → start + 4 ≤ n) ∧
      (2 ≤ count → start + len ∈ cs) ∧ CutsOk cs (start + len) fs

instance decidableCutsOk (cs : List ℕ) : ∀ start fs, Decidable (CutsOk cs start fs)
  | _, [] => isTrue trivial
  | start, (len, _) :: fs =>
    have := decidableCutsOk cs (start + len) fs
    inferInstanceAs (Decidable (_ ∧ _ ∧ _))

/-! ### Calls -/

section

variable {cc : ClientCtx κ} {k : κ} {n : ℕ}

/-- The codec with the security layer on, between two buffers. -/
def between (n : ℕ) (k : κ) : LdapCodec κ :=
  ⟨false, true, n, some k⟩

/-- The codec inside a buffer. -/
def inside (n : ℕ) (k : κ) : LdapCodec κ :=
  ⟨true, true, n, some k⟩

theorem plain_eq_nil_iff {g : List Message} : plain g = [] ↔ g = [] := by
  cases g with
  | nil => simp [plain]
  | cons m ms =>
    have hne := framed_decodeInner.enc_ne_nil m
    simp [plain, hne]

theorem decode_nil (s : LdapCodec κ) : decode cc s [] = (.ok none, s, []) := by
  simp [decode, framed_decodeInner.nil]

/-- The length has to be there at once. -/
theorem decode_header {b : List UInt8} (hne : b ≠ []) (hlt : b.length < 4) :
    decode cc (between n k) b = (.error (.error "invalid SASL buffer"), between n k, b) := by
  simp [decode, between, hne, hlt]

theorem length_saslBuffer (w : List UInt8) : (saslBuffer w).length = 4 + w.length := by
  simp [saslBuffer]

/-- A beginning of a buffer with its length waits. -/
theorem decode_beginning {w b q : List UInt8} (hw : w.length < 2 ^ 32) (heq : b ++ q = saslBuffer w)
    (hq : q ≠ []) (hge : 4 ≤ b.length) :
    decode cc (between n k) b = (.ok none, between n k, b) := by
  have hne : b ≠ [] := by
    rintro rfl
    simp at hge
  have htake : b.take 4 = BigEndian.octets 4 w.length := by
    rw [← @List.take_append_of_le_length _ b q 4 hge, heq, saslBuffer,
      List.take_left' (BigEndian.length_octets 4 _)]
  have hlen : b.length - 4 < w.length := by
    have hall := congrArg List.length heq
    have hpos := List.length_pos_iff.2 hq
    rw [List.length_append, length_saslBuffer] at hall
    omega
  have hvalue := BigEndian.value_octets_of_lt (w := 4) (by simpa using hw)
  simp [decode, between, hne, Nat.not_lt.2 hge, htake, hvalue, hlen]

/-- A whole buffer gives its first message. The others are kept if nothing follows the buffer, and
dropped otherwise. -/
theorem decode_saslBuffer (peer : Peer cc) (m : Message) (ms : List Message) (rest : List UInt8)
    (hw : (peer.wrap k (plain (m :: ms))).length < 2 ^ 32) :
    decode cc (between n k) (saslBuffer (peer.wrap k (plain (m :: ms))) ++ rest) =
      (.ok (some m.decoded),
        if ms ≠ [] ∧ rest = [] then (inside n (peer.next k), plain ms)
        else (between n (peer.next k), rest)) := by
  have hne : saslBuffer (peer.wrap k (plain (m :: ms))) ++ rest ≠ [] := by
    simp [saslBuffer, BigEndian.octets]
  have hlen : (saslBuffer (peer.wrap k (plain (m :: ms))) ++ rest).length =
      4 + (peer.wrap k (plain (m :: ms))).length + rest.length := by
    rw [List.length_append, length_saslBuffer]
  have htake : (saslBuffer (peer.wrap k (plain (m :: ms))) ++ rest).take 4 =
      BigEndian.octets 4 (peer.wrap k (plain (m :: ms))).length := by
    rw [saslBuffer, List.append_assoc, List.take_left' (BigEndian.length_octets 4 _)]
  have hdrop : (saslBuffer (peer.wrap k (plain (m :: ms))) ++ rest).drop 4 =
      peer.wrap k (plain (m :: ms)) ++ rest := by
    rw [saslBuffer, List.append_assoc, List.drop_left' (BigEndian.length_octets 4 _)]
  have hvalue := BigEndian.value_octets_of_lt (w := 4) (n := (peer.wrap k (plain (m :: ms))).length)
    (by simpa using hw)
  -- Only the first message of the buffer is taken by the call that opens it.
  have hinner : decodeInner (plain (m :: ms)) = (.ok (some m.decoded), plain ms) :=
    framed_decodeInner.decode_append m (plain ms)
  have hge : ¬4 + (peer.wrap k (plain (m :: ms))).length + rest.length < 4 := by omega
  have hall : ¬4 + (peer.wrap k (plain (m :: ms))).length + rest.length - 4 <
      (peer.wrap k (plain (m :: ms))).length := by omega
  have hok : (Except.ok (some m.decoded) : Except Fault (Option Decoded)).isOk = true := rfl
  simp only [decode, between, hne, hlen, htake, hdrop, hvalue, hinner, peer.unwrapIov_wrap, hge,
    hall, hok, plain_eq_nil_iff, ne_eq, not_true_eq_false, or_false, if_false, true_and,
    Bool.false_eq_true]
  split <;> rfl

/-- Inside a buffer the messages come one by one, until none is left. -/
theorem decode_inside (m : Message) (ms : List Message) :
    decode cc (inside n k) (plain (m :: ms)) =
      (.ok (some m.decoded), if ms = [] then between n k else inside n k, plain ms) := by
  have hne : plain (m :: ms) ≠ [] := by simp [plain_eq_nil_iff]
  have hinner : decodeInner (plain (m :: ms)) = (.ok (some m.decoded), plain ms) :=
    framed_decodeInner.decode_append m (plain ms)
  have hok : (Except.ok (some m.decoded) : Except Fault (Option Decoded)).isOk = true := rfl
  simp only [decode, inside, between, hne, hinner, hok, plain_eq_nil_iff, not_true_eq_false,
    or_false, if_false, if_true, true_and]

theorem drains_inside_iff {ms : List Message} (hne : ms ≠ []) {out : List Decoded}
    {s' : LdapCodec κ} {b' : List UInt8} :
    Drains (decode cc) (inside n k) (plain ms) out s' b' ↔
      out = ms.map Message.decoded ∧ s' = between n k ∧ b' = [] := by
  induction ms generalizing out with
  | nil => exact absurd rfl hne
  | cons m ms ih =>
    rw [drains_iff_of_read (decode_inside m ms)]
    by_cases hms : ms = []
    · subst hms
      rw [if_pos rfl, show plain [] = [] from rfl]
      simp only [drains_iff_of_wait (decode_nil _)]
      constructor
      · rintro ⟨out', rfl, rfl, rfl, rfl⟩
        exact ⟨rfl, rfl, rfl⟩
      · rintro ⟨rfl, rfl, rfl⟩
        exact ⟨[], rfl, rfl, rfl, rfl⟩
    · rw [if_neg hms]
      simp only [ih hms]
      constructor
      · rintro ⟨out', rfl, rfl, rfl, rfl⟩
        exact ⟨rfl, rfl, rfl⟩
      · rintro ⟨rfl, rfl, rfl⟩
        exact ⟨_, rfl, rfl, rfl, rfl⟩

end

/-! ### One read -/

/-- What is read of some whole buffers: of each the first message, and all of the last one if the
read ends behind it. -/
def got (ended : Bool) : List (List Message) → List Message
  | [] => []
  | g :: gs => (if gs = [] ∧ ended then g else g.take 1) ++ got ended gs

theorem got_sublist (ended : Bool) (gs : List (List Message)) :
    (got ended gs).Sublist gs.flatten := by
  induction gs with
  | nil => exact List.Sublist.refl []
  | cons g gs ih =>
    rw [got, List.flatten_cons]
    refine List.Sublist.append ?_ ih
    split
    · exact List.Sublist.refl g
    · exact List.take_sublist 1 g

section

variable {cc : ClientCtx κ} (peer : Peer cc)

/-- The buffers with some messages each, wrapped one after the other. -/
def Sealed : κ → List (List Message × List UInt8) → Prop
  | _, [] => True
  | k, (g, w) :: xs =>
    g ≠ [] ∧ w = peer.wrap k (plain g) ∧ w.length < 2 ^ 32 ∧ Sealed (peer.next k) xs

/-- The octets on the wire. -/
abbrev onWire (x : List Message × List UInt8) : List UInt8 :=
  saslBuffer x.2

variable {peer} {n : ℕ} {k : κ}

theorem Sealed.append {xs ys : List (List Message × List UInt8)} (h : Sealed peer k (xs ++ ys)) :
    Sealed peer k xs ∧ Sealed peer (peer.next^[xs.length] k) ys := by
  induction xs generalizing k with
  | nil => exact ⟨trivial, h⟩
  | cons x xs ih =>
    obtain ⟨hne, hwrap, hlen, hrest⟩ := h
    obtain ⟨hxs, hys⟩ := ih hrest
    exact ⟨⟨hne, hwrap, hlen, hxs⟩, by rwa [List.length_cons, Function.iterate_succ_apply]⟩

theorem eq_nil_of_onWire {xs : List (List Message × List UInt8)}
    (h : (xs.map onWire).flatten = []) : xs = [] := by
  cases xs with
  | nil => rfl
  | cons x xs =>
    have hlen := congrArg List.length h
    rw [List.map_cons, List.flatten_cons, List.length_append, length_saslBuffer] at hlen
    simp at hlen

/-- The octets of a buffer that has begun: an incomplete length is an error, anything more waits. -/
theorem drains_waiting_iff {xs : List (List Message × List UInt8)} {b : List UInt8}
    (hs : Sealed peer k xs) (hw : Framed.Waiting onWire b xs) {out : List Decoded}
    {s' : LdapCodec κ} {b' : List UInt8} :
    Drains (decode cc) (between n k) b out s' b' ↔
      (b = [] ∨ 4 ≤ b.length) ∧ out = [] ∧ s' = between n k ∧ b' = b := by
  by_cases hne : b = []
  · subst hne
    rw [drains_iff_of_wait (decode_nil _)]
    simp
  by_cases hlt : b.length < 4
  · have hnot : ¬Drains (decode cc) (between n k) b out s' b' :=
      not_drains_of_error (decode_header hne hlt)
    simp only [hnot, hne, false_or, false_iff]
    omega
  · have hge : 4 ≤ b.length := Nat.not_lt.1 hlt
    rcases xs with - | ⟨⟨g, w⟩, xs⟩
    · exact absurd hw hne
    · obtain ⟨q, hq, heq⟩ := hw
      rw [drains_iff_of_wait (decode_beginning hs.2.2.1 heq hq hge)]
      simp [hge]

/-- What one read that ends inside the buffers `ys` gives of the buffers `xs` before them. -/
theorem drains_sasl_iff {xs ys : List (List Message × List UInt8)} {p : List UInt8}
    (hs : Sealed peer k (xs ++ ys)) (hw : Framed.Waiting onWire p ys) {out : List Decoded}
    {s' : LdapCodec κ} {b' : List UInt8} :
    Drains (decode cc) (between n k) ((xs.map onWire).flatten ++ p) out s' b' ↔
      (p = [] ∨ 4 ≤ p.length) ∧ out = (got p.isEmpty (xs.map (·.1))).map Message.decoded ∧
        s' = between n (peer.next^[xs.length] k) ∧ b' = p := by
  induction xs generalizing k out with
  | nil => exact drains_waiting_iff hs hw
  | cons x xs ih =>
    obtain ⟨g, w⟩ := x
    obtain ⟨hne, rfl, hlen, hrest⟩ := hs
    obtain ⟨m, ms, rfl⟩ := List.exists_cons_of_ne_nil hne
    have hcall := decode_saslBuffer (n := n) peer m ms ((xs.map onWire).flatten ++ p) hlen
    rw [List.map_cons, List.flatten_cons, List.append_assoc, onWire]
    by_cases hlast : ms ≠ [] ∧ (xs.map onWire).flatten ++ p = []
    · -- The read ends behind the buffer, and the other messages stay in the receive buffer.
      obtain ⟨hms, hnil⟩ := hlast
      rw [if_pos ⟨hms, hnil⟩] at hcall
      obtain ⟨hxs, rfl⟩ := List.append_eq_nil_iff.1 hnil
      obtain rfl := eq_nil_of_onWire hxs
      simp only [drains_iff_of_read hcall, drains_inside_iff hms]
      constructor
      · rintro ⟨out', rfl, rfl, rfl, rfl⟩
        exact ⟨by simp, by simp [got], rfl, rfl⟩
      · rintro ⟨-, rfl, rfl, rfl⟩
        exact ⟨_, by simp [got], rfl, rfl, rfl⟩
    · rw [if_neg hlast] at hcall
      simp only [drains_iff_of_read hcall, ih hrest]
      have hgot : got p.isEmpty ((m :: ms) :: xs.map (·.1)) =
          m :: got p.isEmpty (xs.map (·.1)) := by
        rw [got]
        split
        · rename_i hend
          obtain ⟨hxs, hp⟩ := hend
          obtain rfl := List.map_eq_nil_iff.1 hxs
          obtain rfl := List.isEmpty_iff.1 hp
          have hms : ms = [] := by
            by_contra hms
            exact hlast ⟨hms, rfl⟩
          rw [hms]
          rfl
        · rfl
      rw [List.map_cons, hgot]
      constructor
      · rintro ⟨out', rfl, hp, rfl, rfl, rfl⟩
        exact ⟨hp, rfl, rfl, rfl⟩
      · rintro ⟨hp, rfl, rfl, rfl⟩
        exact ⟨_, rfl, hp, rfl, rfl, rfl⟩

/-! ### Whole runs -/

/-- The length of a buffer on the wire and the number of its messages. -/
def shape (x : List Message × List UInt8) : ℕ × ℕ :=
  ((onWire x).length, x.1.length)

/-- No more messages come out than were sent. -/
theorem length_le_of_feeds {cs : List (List UInt8)} {xs : List (List Message × List UInt8)}
    {b : List UInt8} (hs : Sealed peer k xs) (hw : Framed.Waiting onWire b xs)
    (heq : b ++ cs.flatten = (xs.map onWire).flatten) {out : List Decoded} {s' : LdapCodec κ}
    {b' : List UInt8} (h : Feeds (decode cc) (between n k) b cs out s' b') :
    out.length ≤ (xs.map (·.1)).flatten.length := by
  induction cs generalizing b xs k out with
  | nil =>
    obtain ⟨rfl, -, -⟩ := feeds_nil_iff.1 h
    exact Nat.zero_le _
  | cons c cs ih =>
    rw [List.flatten_cons, ← List.append_assoc] at heq
    obtain ⟨xs₁, xs₂, p, rfl, hb, hp, hw'⟩ := Framed.exists_split heq
    obtain ⟨out₁, s₁, b₁, out₂, hdrain, hfeed, rfl⟩ := feeds_cons_iff.1 h
    rw [hb, drains_sasl_iff hs hw'] at hdrain
    obtain ⟨-, rfl, rfl, rfl⟩ := hdrain
    -- A read gives some of the messages of the buffers it completes.
    have hrest := ih hs.append.2 hw' hp hfeed
    have hfirst := (got_sublist b₁.isEmpty (xs₁.map (·.1))).length_le
    rw [List.map_append, List.flatten_append, List.length_append, List.length_append,
      List.length_map]
    omega

/-- Two lists that are no longer than two others have the same concatenation only if they are the
same. -/
theorem append_eq_append_iff_of_length_le {α : Type} {as bs cs ds : List α}
    (h₁ : as.length ≤ cs.length) (h₂ : bs.length ≤ ds.length) :
    as ++ bs = cs ++ ds ↔ as = cs ∧ bs = ds := by
  constructor
  · intro heq
    have hlen := congrArg List.length heq
    rw [List.length_append, List.length_append] at hlen
    exact List.append_inj heq (by omega)
  · rintro ⟨rfl, rfl⟩
    rfl

/-- All messages of some buffers are read if and only if the one read behind them suits them. -/
theorem got_eq_iff {cs : List ℕ} {start : ℕ} {xs : List (List Message × List UInt8)} {r : ℕ}
    (hcs : ∀ c ∈ cs, start + (xs.map onWire).flatten.length + r ≤ c)
    (hmem : start + (xs.map onWire).flatten.length + r ∈ cs) {ended : Bool}
    (hended : ended = true ↔ r = 0) :
    got ended (xs.map (·.1)) = (xs.map (·.1)).flatten ↔ CutsOk cs start (xs.map shape) := by
  induction xs generalizing start with
  | nil => simp [got, CutsOk]
  | cons x xs ih =>
    rw [List.map_cons, List.flatten_cons, List.length_append, ← Nat.add_assoc] at hcs hmem
    have hfirst : (if xs.map (·.1) = [] ∧ ended then x.1 else x.1.take 1).length ≤ x.1.length := by
      split
      · exact Nat.le_refl _
      · exact List.length_take_le' 1 _
    rw [List.map_cons, List.flatten_cons, got,
      append_eq_append_iff_of_length_le hfirst (got_sublist _ _).length_le, ih hcs hmem,
      List.map_cons, shape, CutsOk]
    -- No cut is inside these buffers, since the read brought them in whole.
    have hinside : ∀ c ∈ cs, start < c → c < start + (onWire x).length → start + 4 ≤ c := by
      intro c hc _ hlt
      have hle := hcs c hc
      omega
    rw [and_iff_right hinside]
    refine and_congr_left fun _ ↦ ?_
    split
    · rename_i hlast
      obtain ⟨hxs, hend⟩ := hlast
      obtain rfl := List.map_eq_nil_iff.1 hxs
      rw [hended.1 hend] at hmem
      simp only [true_iff]
      exact fun _ ↦ hmem
    · rename_i hlast
      rw [List.take_eq_self_iff]
      constructor
      · intro hle hlt
        omega
      -- A buffer with several messages needs a cut at its end, so nothing follows it.
      · intro hcut
        by_contra hlt
        have hle := hcs _ (hcut (by omega))
        have hnil : (xs.map onWire).flatten = [] := List.length_eq_zero_iff.1 (by omega)
        exact hlast ⟨by rw [eq_nil_of_onWire hnil]; rfl, hended.2 (by omega)⟩

/-- The cuts in front of some buffers and those behind. -/
theorem cutsOk_append_iff {cs : List ℕ} {start : ℕ} {xs ys : List (List Message × List UInt8)} :
    CutsOk cs start ((xs ++ ys).map shape) ↔ CutsOk cs start (xs.map shape) ∧
      CutsOk cs (start + (xs.map onWire).flatten.length) (ys.map shape) := by
  induction xs generalizing start with
  | nil => simp [CutsOk]
  | cons x xs ih =>
    rw [List.cons_append, List.map_cons, List.map_cons, shape, CutsOk, CutsOk, ih, List.map_cons,
      List.flatten_cons, List.length_append, ← Nat.add_assoc, and_assoc, and_assoc]

theorem cuts_add (off d : ℕ) (cs : List (List UInt8)) :
    cuts (off + d) cs = (cuts off cs).map (· + d) := by
  induction cs generalizing off with
  | nil => rfl
  | cons c cs ih =>
    rw [cuts, cuts, List.map_cons, ← ih, Nat.add_right_comm]

theorem le_of_mem_cuts {off c : ℕ} {cs : List (List UInt8)} (h : c ∈ cuts off cs) : off ≤ c := by
  induction cs generalizing off with
  | nil => cases h
  | cons c' cs ih =>
    rcases List.mem_cons.1 h with rfl | h
    · exact Nat.le_add_right _ _
    · exact (Nat.le_add_right _ _).trans (ih h)

theorem cutsOk_add_iff {cs : List ℕ} {start d : ℕ} {fs : List (ℕ × ℕ)} :
    CutsOk (cs.map (· + d)) (start + d) fs ↔ CutsOk cs start fs := by
  induction fs generalizing start with
  | nil => rfl
  | cons f fs ih =>
    obtain ⟨len, count⟩ := f
    rw [CutsOk, CutsOk, Nat.add_right_comm start d len, ih]
    refine and_congr ?_ (and_congr_left fun _ ↦ ?_)
    · rw [List.forall_mem_map]
      exact forall₂_congr fun c _ ↦ by omega
    · simp

/-- A cut in front of all buffers does not count. -/
theorem cutsOk_cons_of_lt {cs : List ℕ} {start c : ℕ} {fs : List (ℕ × ℕ)} (h : c < start) :
    CutsOk (c :: cs) start fs ↔ CutsOk cs start fs := by
  induction fs generalizing start with
  | nil => rfl
  | cons f fs ih =>
    obtain ⟨len, count⟩ := f
    rw [CutsOk, CutsOk, ih (by omega), List.forall_mem_cons, List.mem_cons,
      and_iff_right (show start < c → c < start + len → start + 4 ≤ c by omega),
      or_iff_right (show start + len ≠ c by omega)]

/-- A read that ends inside the first buffer. -/
theorem cutsOk_cons_iff {cs : List ℕ} {xs : List (List Message × List UInt8)} {p : List UInt8}
    (hw : Framed.Waiting onWire p xs) :
    CutsOk (p.length :: cs) 0 (xs.map shape) ↔
      (p = [] ∨ 4 ≤ p.length) ∧ CutsOk cs 0 (xs.map shape) := by
  rcases xs with - | ⟨x, xs⟩
  · rw [show p = [] from hw]
    simp [CutsOk]
  · obtain ⟨q, hq, heq⟩ := hw
    have hlt : p.length < (onWire x).length := by
      have hpos := List.length_pos_iff.2 hq
      rw [← heq, List.length_append]
      omega
    have hp : (0 < p.length → p.length < 0 + (onWire x).length → 0 + 4 ≤ p.length) ↔
        (p = [] ∨ 4 ≤ p.length) := by
      rw [← List.length_eq_zero_iff]
      omega
    rw [List.map_cons, shape, CutsOk, CutsOk, cutsOk_cons_of_lt (by omega), List.forall_mem_cons,
      List.mem_cons, or_iff_right (show 0 + (onWire x).length ≠ p.length by omega), hp, and_assoc]

/-- Reading the rest of the stream, from a place inside the first buffer. -/
theorem feeds_iff {cs : List (List UInt8)} {xs : List (List Message × List UInt8)}
    {b : List UInt8} (hs : Sealed peer k xs) (hw : Framed.Waiting onWire b xs)
    (heq : b ++ cs.flatten = (xs.map onWire).flatten) :
    (∃ s' b', Feeds (decode cc) (between n k) b cs
        ((xs.map (·.1)).flatten.map Message.decoded) s' b') ↔
      CutsOk (cuts b.length cs) 0 (xs.map shape) := by
  induction cs generalizing b xs k with
  | nil =>
    rw [List.flatten_nil, List.append_nil] at heq
    obtain rfl : xs = [] := by
      rcases xs with - | ⟨x, xs⟩
      · rfl
      · -- The buffer would be both a proper beginning of the first one and more than all of it.
        obtain ⟨q, hq, hx⟩ := hw
        have hpos := List.length_pos_iff.2 hq
        have hlen := congrArg List.length heq
        have hlen' := congrArg List.length hx
        simp only [List.map_cons, List.flatten_cons, List.length_append] at hlen hlen'
        omega
    simp [feeds_nil_iff, CutsOk]
  | cons c cs ih =>
    rw [List.flatten_cons, ← List.append_assoc] at heq
    obtain ⟨xs₁, xs₂, p, rfl, hb, hp, hw'⟩ := Framed.exists_split heq
    obtain ⟨-, hs₂⟩ := hs.append
    have hlen := congrArg List.length hb
    rw [List.length_append, List.length_append] at hlen
    -- What the read has to give, and the rest of the stream.
    have hread : (∃ s' b', Feeds (decode cc) (between n k) b (c :: cs)
          (((xs₁ ++ xs₂).map (·.1)).flatten.map Message.decoded) s' b') ↔
        (p = [] ∨ 4 ≤ p.length) ∧ got p.isEmpty (xs₁.map (·.1)) = (xs₁.map (·.1)).flatten ∧
          ∃ s' b', Feeds (decode cc) (between n (peer.next^[xs₁.length] k)) p cs
            ((xs₂.map (·.1)).flatten.map Message.decoded) s' b' := by
      simp only [feeds_cons_iff, hb, drains_sasl_iff hs hw', List.map_append, List.flatten_append]
      constructor
      · rintro ⟨s', b', out₁, s₁, b₁, out₂, ⟨hok, hout, hstate, hbuf⟩, hfeed, hall⟩
        rw [hstate, hbuf] at hfeed
        rw [hout] at hall
        have hsub := got_sublist p.isEmpty (xs₁.map (·.1))
        have hle := length_le_of_feeds hs₂ hw' hp hfeed
        obtain ⟨hgot, rfl⟩ := (append_eq_append_iff_of_length_le
          (by simpa only [List.length_map] using hsub.length_le)
          (by simpa only [List.length_map] using hle)).1 hall.symm
        have hgot := congrArg List.length hgot
        rw [List.length_map, List.length_map] at hgot
        exact ⟨hok, hsub.eq_of_length hgot, s', b', hfeed⟩
      · rintro ⟨hok, hgot, s', b', hfeed⟩
        exact ⟨s', b', _, _, _, _, ⟨hok, rfl, rfl, rfl⟩, hfeed, by rw [hgot]⟩
    -- What the cuts have to be for it.
    have hcuts : cuts b.length (c :: cs) =
        (p.length :: cuts p.length cs).map (· + (xs₁.map onWire).flatten.length) := by
      rw [cuts, List.map_cons, ← cuts_add, hlen, Nat.add_comm p.length]
    have hfirst : got p.isEmpty (xs₁.map (·.1)) = (xs₁.map (·.1)).flatten ↔
        CutsOk (cuts b.length (c :: cs)) 0 (xs₁.map shape) := by
      refine got_eq_iff (r := p.length) (fun d hd ↦ ?_) ?_ (by simp)
      · rcases List.mem_cons.1 hd with rfl | hd
        · omega
        · have hle := le_of_mem_cuts hd
          omega
      · rw [cuts, Nat.zero_add, ← hlen]
        exact List.mem_cons_self
    rw [hread, hfirst, ih hs₂ hw' hp, cutsOk_append_iff, and_left_comm]
    refine and_congr_right fun _ ↦ ?_
    rw [hcuts, cutsOk_add_iff, cutsOk_cons_iff hw']

/-- The buffers made for some messages. -/
theorem sealed_zip {k : κ} {gs : List (List Message)} (hne : ∀ g ∈ gs, g ≠ [])
    (hlen : ∀ w ∈ peer.wrapped k (gs.map plain), w.length < 2 ^ 32) :
    Sealed peer k (gs.zip (peer.wrapped k (gs.map plain))) := by
  induction gs generalizing k with
  | nil => trivial
  | cons g gs ih =>
    rw [List.map_cons, Peer.wrapped, List.forall_mem_cons] at hlen
    rw [List.forall_mem_cons] at hne
    exact ⟨hne.1, rfl, hlen.1, ih hne.2 hlen.2⟩

theorem length_wrapped (k : κ) (vs : List (List UInt8)) :
    (peer.wrapped k vs).length = vs.length := by
  induction vs generalizing k with
  | nil => rfl
  | cons v vs ih => rw [Peer.wrapped, List.length_cons, List.length_cons, ih]

/-- **Reading.** Messages sent in SASL buffers that hold one or more whole messages each come out in
order, without an error, if and only if the reads suit the buffers. -/
theorem feeds_sasl_iff (peer : Peer cc) (gs : List (List Message)) (cs : List (List UInt8))
    (hne : ∀ g ∈ gs, g ≠ []) (hlen : ∀ w ∈ peer.wrapped k (gs.map plain), w.length < 2 ^ 32)
    (hcs : cs.flatten = peer.stream k (gs.map plain)) :
    (∃ s' b', Feeds (decode cc) (between n k) [] cs (gs.flatten.map Message.decoded) s' b') ↔
      CutsOk (cuts 0 cs) 0 (List.zipWith (fun g w ↦ ((saslBuffer w).length, g.length)) gs
        (peer.wrapped k (gs.map plain))) := by
  have hlength : gs.length = (peer.wrapped k (gs.map plain)).length := by
    rw [length_wrapped, List.length_map]
  have hwait : Framed.Waiting onWire [] (gs.zip (peer.wrapped k (gs.map plain))) := by
    rcases gs.zip (peer.wrapped k (gs.map plain)) with - | ⟨x, xs⟩
    · rfl
    · exact ⟨onWire x, by simp [saslBuffer, BigEndian.octets], rfl⟩
  have hfst : (gs.zip (peer.wrapped k (gs.map plain))).map (·.1) = gs :=
    List.map_fst_zip hlength.le
  have hwire : (gs.zip (peer.wrapped k (gs.map plain))).map onWire =
      (peer.wrapped k (gs.map plain)).map saslBuffer := by
    rw [show (onWire : List Message × List UInt8 → List UInt8) = saslBuffer ∘ Prod.snd from rfl,
      ← List.map_map, List.map_snd_zip hlength.ge]
  have hstream : [] ++ cs.flatten =
      ((gs.zip (peer.wrapped k (gs.map plain))).map onWire).flatten := by
    rw [List.nil_append, hcs, Peer.stream, hwire]
  have hfeeds := feeds_iff (n := n) (sealed_zip hne hlen) hwait hstream
  rwa [hfst, List.map_zip_eq_zipWith] at hfeeds

end

/-! ### A security context -/

/-- The header of a token that protects the integrity of a buffer, with its number. -/
def tokenHeader (seq : ℕ) : List UInt8 :=
  [0x05, 0x04, 0x01, 0xFF, 0x00, 0x00, 0x00, 0x00] ++ BigEndian.octets 8 seq

/-- A context that numbers the buffers sent and received, and does not encrypt them. -/
def integrityCtx : ClientCtx (ℕ × ℕ) where
  unwrapIov ctx len buf :=
    if (buf.take len).take 16 = tokenHeader ctx.2 then
      .ok ((buf.take len).drop 16, (ctx.1, ctx.2 + 1), buf.drop len)
    else
      .error "defective token"
  wrap ctx v := .ok (tokenHeader ctx.1 ++ v, (ctx.1 + 1, ctx.2))

/-- The other side of that context. -/
def integrityPeer : Peer integrityCtx where
  wrap ctx v := tokenHeader ctx.2 ++ v
  next ctx := (ctx.1, ctx.2 + 1)
  unwrapIov_wrap ctx v rest := by
    have hlen : (tokenHeader ctx.2).length = 16 := by simp [tokenHeader]
    have hall : (tokenHeader ctx.2 ++ v ++ rest).take (tokenHeader ctx.2 ++ v).length =
        tokenHeader ctx.2 ++ v := List.take_left
    simp only [integrityCtx, hall, List.take_left' hlen, List.drop_left' hlen, if_true,
      List.drop_left]

/-- One buffer with one message in two reads, and one with two messages in a read of its own. -/
theorem feeds_sasl_iff_three :
    let stream := integrityPeer.stream (0, 0) ([[unbindMessage], [unbindMessage, unbindMessage]].map
      plain)
    ∃ s' b', Feeds (decode integrityCtx) (between 0 (0, 0)) []
      [stream.take 9, (stream.take 27).drop 9, stream.drop 27]
      ([unbindMessage, unbindMessage, unbindMessage].map Message.decoded) s' b' :=
  (feeds_sasl_iff integrityPeer [[unbindMessage], [unbindMessage, unbindMessage]] _ (by simp)
    (by decide) (by decide)).2 (by decide)

/-- One message in one buffer, of whose length the first read brings two octets. -/
theorem not_feeds_short_header :
    ¬∃ s' b', Feeds (decode integrityCtx) (between 0 (0, 0)) []
      [(integrityPeer.stream (0, 0) [unbindMessage.encoded]).take 2,
        (integrityPeer.stream (0, 0) [unbindMessage.encoded]).drop 2]
      [unbindMessage.decoded] s' b' := by
  rintro ⟨s', b', hfeeds⟩
  obtain ⟨_, _, _, _, hdrains, _, _⟩ := feeds_cons_iff.1 hfeeds
  exact not_drains_of_error (decode_header (by decide) (by decide)) hdrains

end Ldap3
