import EmuleBB.Tcp.Transport

/-!
# The obfuscation handshake

The side that connects knows the user hash of the peer it wants and sends a marker that is no
protocol byte, four random bytes and a header under a cipher made from both; the side that accepts
answers with a header under the cipher of the other direction. Each header announces how much random
padding follows it, and **each side reads exactly what the other wrote**, not a byte of what comes
behind it, so the two ciphers of each direction are at the same position when the handshake is over.

`ensures_accept` and `ensures_negotiate` say so for every delivery, whatever follows on the wire.
-/

namespace EmuleBB.Tcp

open Reading Rc4KeyStream

abbrev Md5 := List UInt8 → Vector UInt8 16

def emuleEncryptionMethodObfuscation : UInt8 := 0x00

def emuleTcpCryptMagicRequester : UInt8 := 34

def emuleTcpCryptMagicServer : UInt8 := 203

def emuleTcpCryptMagicSync : Nat := 0x835E6FC4

def deriveObfuscationKey (md5 : Md5) (userHash : UserHash) (magic : UInt8)
    (randomKeyPart : List UInt8) : Rc4KeyStream :=
  .new (md5 (userHash.toList ++ magic :: randomKeyPart)).toList

inductive HandshakeError where
  /-- The socket's own error when it ends in the middle of a read. -/
  | unexpectedEof
  | invalidResponseMagic (magic : Nat)
  | unsupportedMethod (method : UInt8)
  | invalidRequestMagic (magic : Nat)
  | plaintextMarker (marker : UInt8)
  deriving DecidableEq

/-! ## Reading the socket itself

During the handshake there is no buffer: `read_exact` of the stream takes the bytes it is asked for
and no other. The state of a side is what it has written so far. -/

abbrev Opening (α : Type) := Reading (List UInt8) (Except HandshakeError α)

/-- Every turn takes at least one byte, so as many turns as bytes are enough. -/
def streamReadLoop : (turns remaining : Nat) → (filled sent : List UInt8) → Opening (List UInt8)
  | 0, _, filled, sent => .done sent (.ok filled)
  | turns + 1, remaining, filled, sent =>
    if remaining = 0 then .done sent (.ok filled)
    else
      .await sent remaining fun bytes =>
        if bytes.length = 0 then .done sent (.error .unexpectedEof)
        else streamReadLoop turns (remaining - bytes.length) (filled ++ bytes) sent

def streamReadExact (n : Nat) (sent : List UInt8) : Opening (List UInt8) :=
  streamReadLoop n n [] sent

def andThen {α β : Type} (program : Opening α) (f : List UInt8 → α → Opening β) : Opening β :=
  program.bind fun sent result =>
    match result with
    | .ok a => f sent a
    | .error e => .done sent (.error e)

def readPadding (paddingLen : Nat) (sent : List UInt8) : Opening (List UInt8) :=
  if 0 < paddingLen then streamReadExact paddingLen sent else .done sent (.ok [])

/-! ## The side that connects -/

def requestTail (padding : List UInt8) : List UInt8 :=
  putLe 4 emuleTcpCryptMagicSync ++ emuleEncryptionMethodObfuscation ::
    emuleEncryptionMethodObfuscation :: UInt8.ofNat padding.length :: padding

def negotiateOutgoingObfuscationHandshake (md5 : Md5) (peerUserHash : UserHash)
    (randomKeyPart : Vector UInt8 4) (marker : UInt8) (padding : List UInt8) :
    Opening (Rc4KeyStream × Rc4KeyStream) :=
  let sendCipher :=
    deriveObfuscationKey md5 peerUserHash emuleTcpCryptMagicRequester randomKeyPart.toList
  let receiveCipher :=
    deriveObfuscationKey md5 peerUserHash emuleTcpCryptMagicServer randomKeyPart.toList
  let encryptedTail := sendCipher.apply (requestTail padding)
  let request := marker :: (randomKeyPart.toList ++ encryptedTail.1)
  andThen (streamReadExact 6 request) fun sent encryptedHeader =>
    let header := (receiveCipher.apply encryptedHeader).1
    let receiveCipher := (receiveCipher.apply encryptedHeader).2
    let magic := leValue (header.take 4)
    if magic ≠ emuleTcpCryptMagicSync then .done sent (.error (.invalidResponseMagic magic))
    else if header.getD 4 0 ≠ emuleEncryptionMethodObfuscation then
      .done sent (.error (.unsupportedMethod (header.getD 4 0)))
    else
      andThen (readPadding (header.getD 5 0).toNat sent) fun sent encryptedPadding =>
        .done sent (.ok ((receiveCipher.apply encryptedPadding).2, encryptedTail.2))

/-! ## The side that accepts -/

def responseClear (padding : List UInt8) : List UInt8 :=
  putLe 4 emuleTcpCryptMagicSync ++ emuleEncryptionMethodObfuscation ::
    UInt8.ofNat padding.length :: padding

def encodeIncomingObfuscationResponse (sendCipher : Rc4KeyStream) (padding : List UInt8) :
    List UInt8 × Rc4KeyStream :=
  sendCipher.apply (responseClear padding)

/-- The methods the peer asks for and supports are only logged. -/
def acceptIncomingObfuscationHandshake (md5 : Md5) (localUserHash : UserHash)
    (padding : List UInt8) (firstMarker : UInt8) (sent : List UInt8) :
    Opening (Rc4KeyStream × Rc4KeyStream) :=
  if isPlainEd2kProtocolMarker firstMarker then
    .done sent (.error (.plaintextMarker firstMarker))
  else
    andThen (streamReadExact 4 sent) fun sent randomKeyPart =>
      let receiveCipher :=
        deriveObfuscationKey md5 localUserHash emuleTcpCryptMagicRequester randomKeyPart
      let sendCipher := deriveObfuscationKey md5 localUserHash
        emuleTcpCryptMagicServer randomKeyPart
      andThen (streamReadExact 7 sent) fun sent encryptedHeader =>
        let header := (receiveCipher.apply encryptedHeader).1
        let receiveCipher := (receiveCipher.apply encryptedHeader).2
        let magic := leValue (header.take 4)
        if magic ≠ emuleTcpCryptMagicSync then .done sent (.error (.invalidRequestMagic magic))
        else
          andThen (readPadding (header.getD 6 0).toNat sent) fun sent ignoredPadding =>
            let response := encodeIncomingObfuscationResponse sendCipher padding
            .done (sent ++ response.1)
              (.ok ((receiveCipher.apply ignoredPadding).2, response.2))

def accept (md5 : Md5) (localUserHash : UserHash) (padding : List UInt8) : Opening Ed2kTransport :=
  (streamReadExact 1 []).bind fun sent firstByte =>
    match firstByte with
    | .error _ => .done sent (.ok (.fromParts [] none none))
    | .ok firstByte =>
      let marker := firstByte.getD 0 0
      if isPlainEd2kProtocolMarker marker then
        .done sent (.ok (.fromParts [marker] none none))
      else
        andThen (acceptIncomingObfuscationHandshake md5 localUserHash padding marker sent)
          fun sent ciphers => .done sent (.ok (.fromParts [] (some ciphers.1) (some ciphers.2)))

/-! ## What the reads of the handshake take -/

section Specs

variable {β : Type} {I : List UInt8 → List UInt8 → Prop}
  {R : List UInt8 → Except HandshakeError β → List UInt8 → Prop}
  {sent part rest : List UInt8} {n : Nat} {turns : Nat} {filled : List UInt8}
  {f : List UInt8 → List UInt8 → Opening β}

theorem ensures_streamReadLoop (hI : ∀ w, I sent w) (hturns : part.length ≤ turns) :
    Ensures I (fun s result w => s = sent ∧ result = .ok (filled ++ part) ∧ w = rest)
      (streamReadLoop turns part.length filled sent) (part ++ rest) := by
  induction turns generalizing part filled with
  | zero =>
    obtain rfl : part = [] := List.length_eq_zero_iff.mp (by omega)
    simp [streamReadLoop, Ensures]
  | succ turns ih =>
    unfold streamReadLoop
    split
    case isTrue hzero =>
      obtain rfl : part = [] := List.length_eq_zero_iff.mp hzero
      simp [Ensures]
    case isFalse hpos =>
      refine ⟨hI _, ?_⟩
      intro n
      have hpiece := pieceLen_pos part.length n
      have hle := pieceLen_le n (Nat.pos_of_ne_zero hpos)
      rw [List.take_append_of_le_length hle, List.drop_append_of_le_length hle]
      have hlen : (part.take (pieceLen part.length n)).length = pieceLen part.length n := by
        rw [List.length_take]
        omega
      dsimp only
      rw [hlen, if_neg (by omega), ← List.length_drop]
      apply (ih (by rw [List.length_drop]; omega)).mono
      · intro s w h
        exact h
      · rintro s result w ⟨hs, hresult, hw⟩
        refine ⟨hs, ?_, hw⟩
        rw [hresult, List.append_assoc, List.take_append_drop]

theorem ensures_streamReadExact (hI : ∀ w, I sent w) (hn : part.length = n) :
    Ensures I (fun s result w => s = sent ∧ result = .ok part ∧ w = rest)
      (streamReadExact n sent) (part ++ rest) := by
  subst hn
  exact @ensures_streamReadLoop I sent part rest part.length [] hI (Nat.le_refl _)

theorem ensures_readThen (hI : ∀ w, I sent w) (hn : part.length = n)
    (h : Ensures I R (f sent part) rest) :
    Ensures I R (andThen (streamReadExact n sent) f) (part ++ rest) := by
  apply Ensures.bind
  apply (ensures_streamReadExact hI hn).mono
  · intro s w hs
    exact hs
  · rintro s result w ⟨rfl, rfl, rfl⟩
    exact h

theorem ensures_readPadding (hI : ∀ w, I sent w) (hn : part.length = n)
    (h : Ensures I R (f sent part) rest) :
    Ensures I R (andThen (readPadding n sent) f) (part ++ rest) := by
  unfold readPadding
  split
  case isTrue hpos => exact ensures_readThen hI hn h
  case isFalse hzero =>
    obtain rfl : part = [] := List.length_eq_zero_iff.mp (by omega)
    exact h

variable {P : List UInt8 → Prop}

theorem keeps_streamReadLoop {remaining : Nat} (h : P sent) :
    Keeps P (streamReadLoop turns remaining filled sent) := by
  induction turns generalizing remaining filled with
  | zero => exact h
  | succ turns ih =>
    unfold streamReadLoop
    split
    · exact h
    · refine ⟨h, ?_⟩
      intro bytes
      dsimp only
      split
      · exact h
      · exact ih

theorem keeps_readPadding (h : P sent) : Keeps P (readPadding n sent) := by
  unfold readPadding
  split
  · exact keeps_streamReadLoop h
  · exact h

theorem keeps_andThen {α : Type} {program : Opening α} {f : List UInt8 → α → Opening β}
    (h : Keeps P program) (hf : ∀ s a, P s → Keeps P (f s a)) : Keeps P (andThen program f) := by
  apply h.bind
  intro s result hs
  cases result with
  | ok a => exact hf s a hs
  | error => exact hs

end Specs

/-! ## The handshake of two sides -/

section Handshake

variable (md5 : Md5) (userHash : UserHash) (randomKeyPart : Vector UInt8 4)

def requesterCipher : Rc4KeyStream :=
  deriveObfuscationKey md5 userHash emuleTcpCryptMagicRequester randomKeyPart.toList

def serverCipher : Rc4KeyStream :=
  deriveObfuscationKey md5 userHash emuleTcpCryptMagicServer randomKeyPart.toList

def request (marker : UInt8) (padding : List UInt8) : List UInt8 :=
  marker :: (randomKeyPart.toList ++
    ((requesterCipher md5 userHash randomKeyPart).apply (requestTail padding)).1)

def response (padding : List UInt8) : List UInt8 :=
  ((serverCipher md5 userHash randomKeyPart).apply (responseClear padding)).1

def requesterCipherAfter (padding : List UInt8) : Rc4KeyStream :=
  ((requesterCipher md5 userHash randomKeyPart).apply (requestTail padding)).2

def serverCipherAfter (padding : List UInt8) : Rc4KeyStream :=
  ((serverCipher md5 userHash randomKeyPart).apply (responseClear padding)).2

variable {md5 userHash randomKeyPart} {marker : UInt8}
  {requestPadding responsePadding rest : List UInt8}

theorem announcedPadding {padding : List UInt8} (h : padding.length < 256) :
    padding.length = (UInt8.ofNat padding.length).toNat := by
  rw [UInt8.toNat_ofNat', Nat.mod_eq_of_lt h]

/-- **The connecting side** has written its request at every wait, and ends behind the response with
    both ciphers where the accepting side has them. -/
theorem ensures_negotiate (hpadding : responsePadding.length < 256) :
    Ensures (fun sent _ => sent = request md5 userHash randomKeyPart marker requestPadding)
      (fun sent result w => sent = request md5 userHash randomKeyPart marker requestPadding ∧
        result = .ok (serverCipherAfter md5 userHash randomKeyPart responsePadding,
          requesterCipherAfter md5 userHash randomKeyPart requestPadding) ∧ w = rest)
      (negotiateOutgoingObfuscationHandshake md5 userHash randomKeyPart marker requestPadding)
      (response md5 userHash randomKeyPart responsePadding ++ rest) := by
  have hclear : responseClear responsePadding = (putLe 4 emuleTcpCryptMagicSync ++
      [emuleEncryptionMethodObfuscation, UInt8.ofNat responsePadding.length]) ++
        responsePadding := by
    simp [responseClear]
  rw [response, serverCipherAfter, hclear, apply_append, List.append_assoc]
  unfold negotiateOutgoingObfuscationHandshake
  rw [← serverCipher]
  apply ensures_readThen
  · intro w
    rfl
  · simp
  · -- the header decrypts to itself and passes both checks
    rw [apply_apply]
    dsimp only
    apply ensures_readPadding
    · intro w
      rfl
    · rw [length_apply]
      exact announcedPadding hpadding
    · rw [apply_apply]
      exact ⟨rfl, rfl, rfl⟩

theorem ensures_acceptIncoming (hmarker : isPlainEd2kProtocolMarker marker = false)
    (hpadding : requestPadding.length < 256) : Ensures (fun sent _ => sent = [])
      (fun sent result w => sent = response md5 userHash randomKeyPart responsePadding ∧
        result = .ok (requesterCipherAfter md5 userHash randomKeyPart requestPadding,
          serverCipherAfter md5 userHash randomKeyPart responsePadding) ∧ w = rest)
      (acceptIncomingObfuscationHandshake md5 userHash responsePadding marker [])
      (randomKeyPart.toList ++
        (((requesterCipher md5 userHash randomKeyPart).apply (requestTail requestPadding)).1 ++
          rest)) := by
  have hclear : requestTail requestPadding = (putLe 4 emuleTcpCryptMagicSync ++
      [emuleEncryptionMethodObfuscation, emuleEncryptionMethodObfuscation,
        UInt8.ofNat requestPadding.length]) ++ requestPadding := by
    simp [requestTail]
  rw [requesterCipherAfter, hclear, apply_append, List.append_assoc]
  unfold acceptIncomingObfuscationHandshake
  rw [hmarker]
  apply ensures_readThen
  · intro w
    rfl
  · simp
  · rw [← requesterCipher]
    apply ensures_readThen
    · intro w
      rfl
    · simp
    · -- the header decrypts to itself and passes the check
      rw [apply_apply]
      dsimp only
      apply ensures_readPadding
      · intro w
        rfl
      · rw [length_apply]
        exact announcedPadding hpadding
      · rw [apply_apply]
        exact ⟨rfl, rfl, rfl⟩

theorem keeps_negotiate :
    Keeps (fun sent => sent = request md5 userHash randomKeyPart marker requestPadding)
      (negotiateOutgoingObfuscationHandshake md5 userHash randomKeyPart marker requestPadding) := by
  apply keeps_andThen
  · exact keeps_streamReadLoop rfl
  · intro sent header hsent
    dsimp only
    split
    · exact hsent
    · split
      · exact hsent
      · apply keeps_andThen
        · exact keeps_readPadding hsent
        · intro sent' padding hsent'
          exact hsent'

/-- **The accepting side** reads the request and nothing behind it, and ends with both ciphers where
    the connecting side has them. -/
theorem ensures_accept (hmarker : isPlainEd2kProtocolMarker marker = false)
    (hpadding : requestPadding.length < 256) : Ensures (fun sent _ => sent = [])
      (fun sent result w => sent = response md5 userHash randomKeyPart responsePadding ∧
        result = .ok (.fromParts []
          (some (requesterCipherAfter md5 userHash randomKeyPart requestPadding))
          (some (serverCipherAfter md5 userHash randomKeyPart responsePadding))) ∧ w = rest)
      (accept md5 userHash responsePadding)
      (request md5 userHash randomKeyPart marker requestPadding ++ rest) := by
  rw [request, List.cons_append, List.append_assoc]
  apply Ensures.bind
  apply (ensures_streamReadExact _ List.length_singleton).mono
  · intro s w hs
    exact hs
  · rintro s result w ⟨rfl, rfl, rfl⟩
    show Ensures _ _ (if isPlainEd2kProtocolMarker marker then _ else _) _
    rw [hmarker]
    apply Ensures.bind
    apply (ensures_acceptIncoming hmarker hpadding).mono
    · intro s w hs
      exact hs
    · rintro s result w ⟨hsent, rfl, hw⟩
      dsimp only
      exact ⟨hsent, rfl, hw⟩
  · intro w
    rfl

end Handshake

end EmuleBB.Tcp
