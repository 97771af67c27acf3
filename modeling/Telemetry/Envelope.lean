import Telemetry.Crypto.Rsa
import Telemetry.Gzip.Member
import Telemetry.Metric.Record

/-
  Envelopes: the body of a request together with the headers that say how it was sealed.

  Sealing writes the records as JSON, gzips them and, given a public key, encrypts the result
  block by block: blocks of `max (k - 66) 1` bytes, each becoming `k` bytes. Opening undoes
  these steps in reverse order: it decrypts first (the scheme `rsa`, in any case, needs a
  private key and a ciphertext whose length is a positive multiple of `k`), then inflates
  when the body is marked gzip, then reads the JSON.
-/

namespace Telemetry

/-- How a body is sealed. -/
structure Headers where
  compressed : Bool := false
  encryption : Option String := none
  deriving DecidableEq, Repr, Inhabited

namespace Headers

/-- ASCII letters in lower case. -/
def lowerAscii (s : String) : String := String.ofList (s.toList.map Char.toLower)

/-- Headers from a lookup by lower-case name: gzip when the `content-encoding` value
mentions `gzip` in any case, and the trimmed `content-encryption` value when not empty. -/
def ofLookup (lookup : String → Option String) : Headers :=
  { compressed := match lookup "content-encoding" with
      | some v => ((lowerAscii v).splitOn "gzip").length > 1
      | none => false
    encryption := match lookup "content-encryption" with
      | some v => let t := Text.trim v; if t.isEmpty then none else some t
      | none => none }

/-- The headers to send, in order. -/
def pairs (h : Headers) : List (String × String) :=
  (if h.compressed then [("content-encoding", "gzip")] else []) ++
  (match h.encryption with | some s => [("content-encryption", s)] | none => [])

end Headers

/-- A sealed body with its headers. -/
structure Envelope where
  body : ByteArray
  headers : Headers

namespace Envelope

/-- Encrypts block by block with a public key. -/
def encrypt (key : Rsa.PublicKey) (plain : List UInt8) : Except MetricError (List UInt8) := do
  let k := Rsa.size key.n
  let blocks := Rsa.chunks (max (k - 66) 1) plain
  let sealed ← blocks.mapM fun b =>
    match key.encryptBlock b with
    | .ok c => .ok c
    | .error f => .error (.internal ("encrypt: " ++ f.text))
  pure sealed.flatten

/-- Decrypts block by block with a private key. -/
def decrypt (key : Rsa.PrivateKey) (cipher : List UInt8) : Except MetricError (List UInt8) := do
  let k := Rsa.size key.n
  if cipher.isEmpty || (k != 0 && cipher.length % k != 0) || k == 0 then
    throw (.decrypt ("ciphertext length " ++ toString cipher.length ++ " is not a multiple of " ++
      toString k))
  let plain ← (Rsa.chunks k cipher).mapM fun b =>
    match key.decryptBlock b with
    | .ok m => .ok m
    | .error f => .error (.decrypt f.text)
  pure plain.flatten

/-- The plain body: decrypted if marked encrypted, then inflated if marked gzip. -/
def plain (body : ByteArray) (h : Headers) (key : Option Rsa.PrivateKey) :
    Except MetricError ByteArray := do
  let data ← match h.encryption with
    | none => pure body
    | some scheme =>
      if Headers.lowerAscii scheme == "rsa" then
        match key with
        | some k => pure (ByteArray.mk (← decrypt k body.toList).toArray)
        | none => throw (.decrypt "payload is encrypted but no private key is configured")
      else throw (.decrypt ("unsupported encryption scheme '" ++ scheme ++ "'"))
  if h.compressed then
    match Gzip.decompress data with
    | .ok out => pure out
    | .error f => throw (.decompress f)
  else pure data

/-- Reads a JSON document from a plain body. -/
def json (data : ByteArray) : Except MetricError Json :=
  match Json.read? data.toList with
  | some j => .ok j
  | none => .error .malformedJson

/-- Opens a body holding a list of records. -/
def decodeBatch (body : ByteArray) (h : Headers) (key : Option Rsa.PrivateKey) :
    Except MetricError (List Record) := do
  match Record.listOfJson? (← json (← Envelope.plain body h key)) with
  | some rs => pure rs
  | none => throw .malformedJson

/-- Opens a body holding one record. -/
def decodeRecord (body : ByteArray) (h : Headers) (key : Option Rsa.PrivateKey) :
    Except MetricError Record := do
  match Record.ofJson? (← json (← Envelope.plain body h key)) with
  | some r => pure r
  | none => throw .malformedJson

/-- Seals JSON text: gzip, then encryption when a key is given. -/
def sealText (text : String) (key : Option Rsa.PublicKey) : Except MetricError Envelope := do
  let body := Gzip.compress text.toUTF8
  match key with
  | none => pure ⟨body, { compressed := true }⟩
  | some k =>
    let c ← encrypt k body.toList
    pure ⟨ByteArray.mk c.toArray, { compressed := true, encryption := some "rsa" }⟩

/-- Seals a list of records. -/
def sealBatch (rs : List Record) (key : Option Rsa.PublicKey) : Except MetricError Envelope :=
  sealText (Record.listToJsonText rs) key

end Envelope

end Telemetry
