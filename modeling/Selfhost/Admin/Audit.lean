import Selfhost.Converge.Lemmas.Ledger
import Selfhost.Identity.Policy

/-!
# The audit log

`foundation/identity/src/audit.rs`, which writes a decision as one line, and the reader of `app/admin/src/audit_api.rs`.
-/

namespace Selfhost.Admin

open Selfhost.Lib Selfhost.Names Selfhost.Identity

variable {A : Alphabet}

/-! ## Records -/

/-- The bytes of a record's identifier. -/
abbrev AuditId := Bytes

def AuditId.text (id : AuditId) : Str :=
  id.flatMap fun b => [lowerHex (b.toNat / 16), lowerHex (b.toNat % 16)]
where
  lowerHex (n : Nat) : Char := "0123456789abcdef".toList.getD n '0'

/-- Acts that no capability names. -/
inductive Authority where
  | grantsChanged
  | personForgotten
  | invitationMinted
  | invitationWithdrawn
  | invitationRedeemed
  | passkeyRegistered
  | passkeyRemoved
  | vpnDeviceEnrolled
  | vpnDeviceForgotten
  | sitePassAuthorised
  | ownerInitialized
  deriving DecidableEq, Repr

def Authority.name : Authority → Str
  | .grantsChanged => "authority.grants".toList
  | .personForgotten => "authority.forget".toList
  | .invitationMinted => "authority.invite".toList
  | .invitationWithdrawn => "authority.uninvite".toList
  | .invitationRedeemed => "authority.redeem".toList
  | .passkeyRegistered => "authority.enrol".toList
  | .passkeyRemoved => "authority.unenrol".toList
  | .vpnDeviceEnrolled => "authority.vpn-enrol".toList
  | .vpnDeviceForgotten => "authority.vpn-forget".toList
  | .sitePassAuthorised => "authority.site-pass".toList
  | .ownerInitialized => "authority.init-owner".toList

inductive Act where
  | exercised (capability : Capability)
  | authority (authority : Authority) (subject : Str)
  deriving DecidableEq

namespace Act

def name : Act → Str
  | .exercised capability => capability.name.text
  | .authority power _ => power.name

def target : Act → Option Str
  | .exercised capability => capability.target
  | .authority _ subject => some subject

end Act

structure AuditRecord (A : Alphabet) where
  id : AuditId
  atUnix : UInt64
  identity : Identity A
  credential : Credential
  act : Act
  decision : Decision
  detail : Str

/-! ## Words of a line -/

def kind : Identity A → Str
  | .owner => "owner".toList
  | .machine => "machine".toList
  | .person _ => "person".toList
  | .agent _ => "agent".toList

def credentialWord : Credential → Str
  | .bearer => "bearer".toList
  | .password => "password".toList
  | .devicePassword => "device-password".toList
  | .personPassword => "person-password".toList
  | .passkey => "passkey".toList
  | .agent => "agent".toList
  | .session session =>
      match session.openedBy with
      | .password => "session.password".toList
      | .passkey => "session.passkey".toList
      | .personPassword => "session.person-password".toList

def refusalWord : Refusal → Str
  | .notGranted => "not-granted".toList
  | .credentialNotArmed => "credential-not-armed".toList
  | .credentialIsNotThisIdentitys => "credential-is-not-this-identitys".toList
  | .outsideTheMachinesScope => "outside-the-machines-scope".toList
  | .credentialNamesNobody => "credential-names-nobody".toList

def decisionWord : Decision → Str
  | .allow => "allow".toList
  | .refuse _ => "refuse".toList

def reasonWord : Decision → Str
  | .allow => ['-']
  | .refuse reason => refusalWord reason

def auditFormat : Str := "selfhost-audit/2".toList

def auditFormatV1 : Str := "selfhost-audit/1".toList

/-- The four texts of a record that are escaped. -/
structure Texts where
  who : Str
  act : Str
  target : Str
  detail : Str
  deriving DecidableEq

def AuditRecord.texts (record : AuditRecord A) : Texts :=
  ⟨record.identity.asStr, record.act.name, record.act.target.getD [], record.detail⟩

/-- The line of a record with some texts in the place of its own. -/
def AuditRecord.lineWith (record : AuditRecord A) (texts : Texts) : Str :=
  auditFormat ++ " id=".toList ++ record.id.text ++ " at=".toList ++ natText record.atUnix.toNat ++
    " identity=".toList ++ kind record.identity ++ " who=".toList ++ escapeField texts.who ++
    " credential=".toList ++ credentialWord record.credential ++ " act=".toList ++ escapeField texts.act ++
    " target=".toList ++ escapeField texts.target ++ " outcome=".toList ++ decisionWord record.decision ++
    " reason=".toList ++ reasonWord record.decision ++ " detail=".toList ++ escapeField texts.detail

def AuditRecord.line (record : AuditRecord A) : Str := record.lineWith record.texts

/-! ## Reading a line -/

/-- The escapes of a text undone; a byte that the writer leaves bare nowhere is refused. -/
def unescapeLoop : Bytes → Option Bytes
  | [] => some []
  | byte :: rest =>
      if byte = 0x25 then
        match rest with
        | high :: low :: rest =>
            match hexValue high, hexValue low, unescapeLoop rest with
            | some h, some l, some out => some (UInt8.ofNat (16 * h + l) :: out)
            | _, _, _ => none
        | _ => none
      else if isBare byte then (unescapeLoop rest).map (byte :: ·)
      else none

/-- The text of a field and whether it was cut. -/
def unescapeField (field : Str) : Option (Str × Bool) :=
  if field = ['-'] then some ([], false)
  else
    let (body, truncated) := if field.getLast? = some '~' then (field.dropLast, true) else (field, false)
    ((unescapeLoop (utf8 body)).bind fromUtf8).map fun text => (text, truncated)

structure Entry where
  id : Str
  atUnix : Nat
  identity : Str
  who : Str
  credential : Str
  act : Str
  target : Str
  outcome : Str
  reason : Str
  detail : Str
  detailTruncated : Bool
  deriving DecidableEq

inductive FieldName where
  | id
  | atUnix
  | identity
  | who
  | credential
  | act
  | target
  | outcome
  | reason
  | detail
  deriving DecidableEq, Repr

namespace FieldName

def text : FieldName → Str
  | .id => "id".toList
  | .atUnix => "at".toList
  | .identity => "identity".toList
  | .who => "who".toList
  | .credential => "credential".toList
  | .act => "act".toList
  | .target => "target".toList
  | .outcome => "outcome".toList
  | .reason => "reason".toList
  | .detail => "detail".toList

def all : List FieldName := [.id, .atUnix, .identity, .who, .credential, .act, .target, .outcome, .reason, .detail]

/-- The field of a name; `capability` is what the first version called `act`. -/
def parse (name : Str) : Option FieldName :=
  if name = "capability".toList then some .act else all.find? fun field => field.text = name

end FieldName

/-- The fields read so far. -/
structure Fields where
  id : Option Str
  atUnix : Option Nat
  identity : Option Str
  who : Option (Str × Bool)
  credential : Option Str
  act : Option (Str × Bool)
  target : Option (Str × Bool)
  outcome : Option Str
  reason : Option Str
  detail : Option (Str × Bool)

def Fields.none : Fields := ⟨.none, .none, .none, .none, .none, .none, .none, .none, .none, .none⟩

def readField (fields : Fields) (token : Str) : Option Fields :=
  match splitOnce '=' token with
  | none => none
  | some (name, value) =>
      match FieldName.parse name with
      | none => some fields
      | some .id => some { fields with id := some value }
      | some .atUnix => (parseUnsigned u64Max value).map fun n => { fields with atUnix := some n }
      | some .identity => some { fields with identity := some value }
      | some .who => (unescapeField value).map fun text => { fields with who := some text }
      | some .credential => some { fields with credential := some value }
      | some .act => (unescapeField value).map fun text => { fields with act := some text }
      | some .target => (unescapeField value).map fun text => { fields with target := some text }
      | some .outcome => some { fields with outcome := some value }
      | some .reason => some { fields with reason := some value }
      | some .detail => (unescapeField value).map fun text => { fields with detail := some text }

def Fields.entry (fields : Fields) : Option Entry := do
  let (detail, truncated) ← fields.detail
  return ⟨← fields.id, ← fields.atUnix, ← fields.identity, (← fields.who).1, ← fields.credential, (← fields.act).1,
    (← fields.target).1, ← fields.outcome, ← fields.reason, detail, truncated⟩

/-- `split(' ')` without the empty pieces. -/
def tokensOf (line : Str) : List Str := (line.splitOnP (· == ' ')).filter fun token => !token.isEmpty

def parseLine (line : Str) : Option Entry :=
  match tokensOf line with
  | [] => none
  | marker :: tokens =>
      if marker ≠ auditFormat ∧ marker ≠ auditFormatV1 then none
      else (tokens.foldlM readField .none).bind Fields.entry

/-! ## One field -/

def Texts.clip (texts : Texts) : Texts :=
  ⟨texts.who.take maxDetailChars, texts.act.take maxDetailChars, texts.target.take maxDetailChars,
    texts.detail.take maxDetailChars⟩

/-- A lone dash stands for no text. -/
def undash (text : Str) : Str := if text = ['-'] then [] else text

def Texts.undash (texts : Texts) : Texts :=
  ⟨Admin.undash texts.who, Admin.undash texts.act, Admin.undash texts.target, Admin.undash texts.detail⟩

theorem unescapeLoop_escapeByte (b : UInt8) (rest : Bytes) :
    unescapeLoop (utf8 (escapeByte b) ++ rest) = (unescapeLoop rest).map (b :: ·) := by
  have hdigit : ∀ n < 16, utf8 [hexDigit n] = [UInt8.ofNat (hexDigit n).toNat] := by
    intro n hn
    have hgraphic := graphic_hexDigit n hn
    rw [utf8_cons, utf8_nil, List.append_nil, utf8EncodeChar_ascii (by omega)]
  unfold escapeByte
  split
  · rename_i hbare
    have hlt : b.toNat < 0x80 := by
      simp only [isBare, Bool.and_eq_true, decide_eq_true_eq, UInt8.le_iff_toNat_le] at hbare
      exact Nat.lt_of_le_of_lt hbare.1.2 (by decide)
    have hne : b ≠ 0x25 := by
      intro heq
      rw [heq] at hbare
      exact absurd hbare (by decide)
    have hchar : utf8 [Char.ofNat b.toNat] = [b] := by
      rw [utf8_cons, utf8_nil, List.append_nil, utf8EncodeChar_one hlt]
    rw [hchar, List.singleton_append, unescapeLoop.eq_def]
    simp only [hne, hbare, if_false, if_true]
  · have hlow : b.toNat / 16 < 16 := Nat.div_lt_of_lt_mul b.toNat_lt
    have hmod : b.toNat % 16 < 16 := Nat.mod_lt b.toNat (by decide : 0 < 16)
    have hutf8 : utf8 ['%', hexDigit (b.toNat / 16), hexDigit (b.toNat % 16)] =
        [0x25, UInt8.ofNat (hexDigit (b.toNat / 16)).toNat, UInt8.ofNat (hexDigit (b.toNat % 16)).toNat] := by
      rw [show ['%', hexDigit (b.toNat / 16), hexDigit (b.toNat % 16)] =
        ['%'] ++ ([hexDigit (b.toNat / 16)] ++ [hexDigit (b.toNat % 16)]) from rfl, utf8_append, utf8_append,
        hdigit _ hlow, hdigit _ hmod]
      rfl
    rw [hutf8]
    simp only [List.cons_append, List.nil_append, unescapeLoop, if_true, hexValue_hexDigit _ hlow, hexValue_hexDigit _ hmod]
    cases unescapeLoop rest with
    | none => rfl
    | some out =>
        simp only [Option.map_some, Nat.div_add_mod, UInt8.ofNat_toNat]

theorem unescapeLoop_escape (bytes : Bytes) : unescapeLoop (utf8 (bytes.flatMap escapeByte)) = some bytes := by
  induction bytes with
  | nil => rfl
  | cons b bytes ih => rw [List.flatMap_cons, utf8_append, unescapeLoop_escapeByte, ih, Option.map_some]

theorem tilde_not_mem_escapeByte (b : UInt8) : '~' ∉ escapeByte b := by
  have hdigit : ∀ n < 16, hexDigit n ≠ '~' := by decide
  unfold escapeByte
  split
  · rename_i hbare
    intro hmem
    have hchar := List.mem_singleton.mp hmem
    have hnat : b.toNat = 0x7E := by
      rw [← toNat_ofNat_of_valid (.inl (Nat.lt_trans b.toNat_lt (by decide))), ← hchar]
      rfl
    rw [UInt8.toNat_inj.mp (hnat.trans rfl : b.toNat = (0x7E : UInt8).toNat)] at hbare
    exact absurd hbare (by decide)
  · simp only [List.mem_cons, List.not_mem_nil, or_false, not_or]
    exact ⟨by decide, (hdigit _ (Nat.div_lt_of_lt_mul b.toNat_lt)).symm, (hdigit _ (Nat.mod_lt _ (by decide))).symm⟩

/-- The escaped bytes of a text are a lone dash just when the text is. -/
theorem escape_eq_dash_iff {text : Str} : (utf8 text).flatMap escapeByte = ['-'] ↔ text = ['-'] := by
  constructor
  · intro h
    have hback := unescapeLoop_escape (utf8 text)
    rw [h] at hback
    have hdash : unescapeLoop (utf8 ['-']) = some [0x2D] := by decide
    rw [hdash] at hback
    have hread := fromUtf8_utf8 text
    rw [← Option.some.inj hback] at hread
    exact (Option.some.inj hread).symm.trans (by decide)
  · rintro rfl
    decide

/-- What the writer escapes, the reader returns, but for a lone dash. -/
theorem unescapeField_escapeField (text : Str) :
    unescapeField (escapeField text) = some (undash (text.take maxDetailChars), decide (maxDetailChars < text.length)) := by
  unfold escapeField
  dsimp only
  by_cases hempty : text.take maxDetailChars = []
  · have hnil : text = [] := by
      rcases List.take_eq_nil_iff.mp hempty with h | h
      · exact absurd h (by decide)
      · exact h
    subst hnil
    rfl
  · rw [if_neg hempty]
    have htilde : '~' ∉ (utf8 (text.take maxDetailChars)).flatMap escapeByte := by
      intro hmem
      obtain ⟨b, -, hb⟩ := List.mem_flatMap.mp hmem
      exact tilde_not_mem_escapeByte b hb
    have hback : (unescapeLoop (utf8 ((utf8 (text.take maxDetailChars)).flatMap escapeByte))).bind fromUtf8 =
        some (text.take maxDetailChars) := by
      rw [unescapeLoop_escape, Option.bind_some, fromUtf8_utf8]
    by_cases hlong : maxDetailChars < text.length
    · have hne : text.take maxDetailChars ≠ ['-'] := by
        intro h
        have hlen := congrArg List.length h
        rw [List.length_take, Nat.min_eq_left (Nat.le_of_lt hlong)] at hlen
        exact absurd hlen (by decide)
      have hdash : (utf8 (text.take maxDetailChars)).flatMap escapeByte ++ ['~'] ≠ ['-'] := by
        intro h
        have hmem : '~' ∈ ['-'] := h ▸ List.mem_append_right _ List.mem_cons_self
        exact absurd hmem (by decide)
      rw [if_pos hlong, unescapeField, if_neg hdash, List.getLast?_concat, if_pos rfl, List.dropLast_concat]
      simp only [hback, Option.map_some, undash, if_neg hne, hlong, decide_true]
    · have hlast : ((utf8 (text.take maxDetailChars)).flatMap escapeByte).getLast? ≠ some '~' := fun h =>
        htilde (List.mem_of_getLast? h)
      rw [if_neg hlong, List.append_nil, unescapeField]
      by_cases hdash : text.take maxDetailChars = ['-']
      · rw [if_pos (escape_eq_dash_iff.mpr hdash)]
        simp [undash, hdash, hlong]
      · rw [if_neg (fun h => hdash (escape_eq_dash_iff.mp h)), if_neg hlast]
        simp only [hback, Option.map_some, undash, if_neg hdash, hlong, decide_false]

/-! ## One line -/

theorem FieldName.parse_text (field : FieldName) : FieldName.parse field.text = some field := by
  cases field <;> decide

theorem FieldName.graphic_text (field : FieldName) : field.text ≠ [] ∧ Graphic field.text ∧ '=' ∉ field.text := by
  unfold Graphic
  cases field <;> decide

theorem graphic_idText (id : AuditId) : Graphic id.text := by
  have hdigit : ∀ n < 16, 0x21 ≤ (AuditId.text.lowerHex n).toNat ∧ (AuditId.text.lowerHex n).toNat < 0x7F := by
    delta AuditId.text.lowerHex
    rewrite [String.toList_ofList]
    decide +kernel
  intro c hc
  obtain ⟨b, -, hb⟩ := List.mem_flatMap.mp hc
  simp only [List.mem_cons, List.not_mem_nil, or_false] at hb
  rcases hb with rfl | rfl
  · exact hdigit _ (Nat.div_lt_of_lt_mul b.toNat_lt)
  · exact hdigit _ (Nat.mod_lt _ (by decide))

theorem graphic_kind (identity : Identity A) : Graphic (kind identity) := by
  unfold Graphic
  cases identity <;> dsimp only [kind, -String.reduceToList] <;> rewrite [String.toList_ofList] <;> decide

theorem graphic_credentialWord (credential : Credential) : Graphic (credentialWord credential) := by
  unfold Graphic
  cases credential with
  | session session =>
      obtain ⟨opening, at'⟩ := session
      cases opening <;> dsimp only [credentialWord, -String.reduceToList] <;> rewrite [String.toList_ofList] <;> decide
  | _ => dsimp only [credentialWord, -String.reduceToList]; rewrite [String.toList_ofList]; decide

theorem graphic_refusalWord (reason : Refusal) : Graphic (refusalWord reason) := by
  unfold Graphic
  cases reason <;> dsimp only [refusalWord, -String.reduceToList] <;> rewrite [String.toList_ofList] <;> decide

theorem graphic_decisionWord (decision : Decision) : Graphic (decisionWord decision) := by
  unfold Graphic
  cases decision <;> dsimp only [decisionWord, -String.reduceToList] <;> rewrite [String.toList_ofList] <;> decide

theorem graphic_reasonWord (decision : Decision) : Graphic (reasonWord decision) := by
  cases decision with
  | allow =>
      unfold Graphic
      decide
  | refuse reason => exact graphic_refusalWord reason

/-- The tokens of a line behind its marker. -/
def AuditRecord.words (record : AuditRecord A) (texts : Texts) : List (FieldName × Str) :=
  [(.id, record.id.text), (.atUnix, natText record.atUnix.toNat), (.identity, kind record.identity),
    (.who, escapeField texts.who), (.credential, credentialWord record.credential), (.act, escapeField texts.act),
    (.target, escapeField texts.target), (.outcome, decisionWord record.decision), (.reason, reasonWord record.decision),
    (.detail, escapeField texts.detail)]

/-- A field as it stands in a line. -/
def token (word : FieldName × Str) : Str := Converge.fieldText word.1.text word.2

theorem lineWith_eq (record : AuditRecord A) (texts : Texts) :
    record.lineWith texts = auditFormat ++ (record.words texts).flatMap fun word => ' ' :: token word := by
  have hid : " id=".toList = ' ' :: (FieldName.id.text ++ ['=']) := by decide
  have hat : " at=".toList = ' ' :: (FieldName.atUnix.text ++ ['=']) := by decide
  have hidentity : " identity=".toList = ' ' :: (FieldName.identity.text ++ ['=']) := by decide
  have hwho : " who=".toList = ' ' :: (FieldName.who.text ++ ['=']) := by decide
  have hcredential : " credential=".toList = ' ' :: (FieldName.credential.text ++ ['=']) := by decide
  have hact : " act=".toList = ' ' :: (FieldName.act.text ++ ['=']) := by decide
  have htarget : " target=".toList = ' ' :: (FieldName.target.text ++ ['=']) := by decide
  have houtcome : " outcome=".toList = ' ' :: (FieldName.outcome.text ++ ['=']) := by decide
  have hreason : " reason=".toList = ' ' :: (FieldName.reason.text ++ ['=']) := by decide
  have hdetail : " detail=".toList = ' ' :: (FieldName.detail.text ++ ['=']) := by decide
  unfold AuditRecord.lineWith AuditRecord.words token Converge.fieldText
  rw [hid, hat, hidentity, hwho, hcredential, hact, htarget, houtcome, hreason, hdetail]
  simp only [List.flatMap_cons, List.flatMap_nil, List.append_nil, List.cons_append, List.append_assoc,
    List.nil_append]

theorem graphic_words (record : AuditRecord A) (texts : Texts) :
    ∀ word ∈ record.words texts, token word ≠ [] ∧ Graphic (token word) := by
  intro word hword
  have hvalue : Graphic word.2 := by
    simp only [AuditRecord.words, List.mem_cons, List.not_mem_nil, or_false] at hword
    rcases hword with rfl | rfl | rfl | rfl | rfl | rfl | rfl | rfl | rfl | rfl
    · exact graphic_idText _
    · exact Converge.graphic_natText _
    · exact graphic_kind _
    · exact Converge.graphic_escapeField _
    · exact graphic_credentialWord _
    · exact Converge.graphic_escapeField _
    · exact Converge.graphic_escapeField _
    · exact graphic_decisionWord _
    · exact graphic_reasonWord _
    · exact Converge.graphic_escapeField _
  obtain ⟨-, hname, -⟩ := word.1.graphic_text
  exact ⟨by simp [token, Converge.fieldText], Converge.graphic_fieldText hname hvalue⟩

theorem not_blank {word : Str} (hword : Graphic word) : ∀ c ∈ word, (c == ' ') = false := by
  intro c hc
  rw [beq_eq_false_iff_ne]
  rintro rfl
  exact absurd (hword _ hc).1 (by decide)

theorem tokensOf_word {word : Str} (hne : word ≠ []) (hword : Graphic word) (rest : Str) :
    tokensOf (word ++ ' ' :: rest) = word :: tokensOf rest := by
  rw [tokensOf, List.splitOnP_append_cons_of_forall_mem (not_blank hword) ' ' (by decide), List.filter_cons_of_pos]
  · rfl
  · simpa using hne

theorem tokensOf_last {word : Str} (hne : word ≠ []) (hword : Graphic word) : tokensOf word = [word] := by
  simp [tokensOf, List.splitOnP_eq_singleton (not_blank hword), hne]

theorem tokensOf_words {first : Str} {words : List Str} (hne : first ≠ []) (hfirst : Graphic first)
    (h : ∀ word ∈ words, word ≠ [] ∧ Graphic word) :
    tokensOf (first ++ words.flatMap fun word => ' ' :: word) = first :: words := by
  induction words generalizing first with
  | nil => rw [List.flatMap_nil, List.append_nil, tokensOf_last hne hfirst]
  | cons word words ih =>
      obtain ⟨hword, hgraphic⟩ := h word List.mem_cons_self
      rw [List.flatMap_cons, List.cons_append, tokensOf_word hne hfirst,
        ih hword hgraphic fun word hmem => h word (List.mem_cons_of_mem _ hmem)]

theorem readField_token (fields : Fields) (field : FieldName) (value : Str) :
    readField fields (token (field, value)) =
      match field with
      | .id => some { fields with id := some value }
      | .atUnix => (parseUnsigned u64Max value).map fun n => { fields with atUnix := some n }
      | .identity => some { fields with identity := some value }
      | .who => (unescapeField value).map fun text => { fields with who := some text }
      | .credential => some { fields with credential := some value }
      | .act => (unescapeField value).map fun text => { fields with act := some text }
      | .target => (unescapeField value).map fun text => { fields with target := some text }
      | .outcome => some { fields with outcome := some value }
      | .reason => some { fields with reason := some value }
      | .detail => (unescapeField value).map fun text => { fields with detail := some text } := by
  have hsplit : splitOnce '=' (token (field, value)) = some (field.text, value) :=
    Converge.splitOnce_fieldText field.graphic_text.2.2 value
  rw [readField, hsplit]
  dsimp only
  rw [FieldName.parse_text]
  cases field <;> rfl

/-- The entry that is read from the line of a record. -/
def AuditRecord.entryWith (record : AuditRecord A) (texts : Texts) : Entry :=
  let read := texts.clip.undash
  ⟨record.id.text, record.atUnix.toNat, kind record.identity, read.who, credentialWord record.credential, read.act,
    read.target, decisionWord record.decision, reasonWord record.decision, read.detail,
    maxDetailChars < texts.detail.length⟩

theorem parseLine_lineWith (record : AuditRecord A) (texts : Texts) :
    parseLine (record.lineWith texts) = some (record.entryWith texts) := by
  have hformat : auditFormat ≠ [] ∧ Graphic auditFormat := by
    unfold Graphic
    decide
  have hwords : ∀ word ∈ (record.words texts).map token, word ≠ [] ∧ Graphic word := by
    intro word hmem
    obtain ⟨field, hfield, rfl⟩ := List.mem_map.mp hmem
    exact graphic_words record texts field hfield
  have hline : record.lineWith texts = auditFormat ++ ((record.words texts).map token).flatMap fun word => ' ' :: word := by
    rw [lineWith_eq, List.flatMap_map]
  have hat : parseUnsigned u64Max (natText record.atUnix.toNat) = some record.atUnix.toNat :=
    parseUnsigned_natText (toNat_le_u64Max _)
  rw [hline, parseLine, tokensOf_words hformat.1 hformat.2 hwords]
  dsimp only
  rw [if_neg (by simp)]
  simp only [AuditRecord.words, List.map_cons, List.map_nil, List.foldlM_cons, List.foldlM_nil, readField_token, hat,
    unescapeField_escapeField, Option.bind_eq_bind, Option.bind_some, Option.pure_def, Option.map_some]
  rfl

/-! ## The audit line -/

/-- What two records have in common when their lines are the same. -/
structure Same (record other : AuditRecord A) (texts texts' : Texts) : Prop where
  id : record.id.text = other.id.text
  atUnix : record.atUnix = other.atUnix
  identity : kind record.identity = kind other.identity
  credential : credentialWord record.credential = credentialWord other.credential
  outcome : decisionWord record.decision = decisionWord other.decision
  reason : reasonWord record.decision = reasonWord other.decision
  texts : texts.clip.undash = texts'.clip.undash

/-- Whatever texts stand in a record, its line has no break, is read back with the clipped texts, a lone dash as no text
at all, and is the line of no record whose texts differ in more than such a dash. -/
theorem audit_line_lossless (record other : AuditRecord A) (texts texts' : Texts) :
    record.line = record.lineWith record.texts ∧
    (∀ c ∈ record.lineWith texts, 0x20 ≤ c.toNat ∧ c.toNat < 0x7F) ∧
    parseLine (record.lineWith texts) = some (record.entryWith texts) ∧
    (record.lineWith texts = other.lineWith texts' → Same record other texts texts') := by
  refine ⟨rfl, ?_, parseLine_lineWith record texts, fun heq => ?_⟩
  · rw [lineWith_eq]
    intro c hc
    rcases List.mem_append.mp hc with hc | hc
    · have hformat : Graphic auditFormat := by
        unfold Graphic
        decide
      exact ⟨Nat.le_of_lt (hformat c hc).1, (hformat c hc).2⟩
    · obtain ⟨word, hword, hc⟩ := List.mem_flatMap.mp hc
      rcases List.mem_cons.mp hc with rfl | hc
      · decide
      · obtain ⟨-, hgraphic⟩ := graphic_words record texts word hword
        exact ⟨Nat.le_of_lt (hgraphic c hc).1, (hgraphic c hc).2⟩
  · have hread := parseLine_lineWith record texts
    rw [heq, parseLine_lineWith other texts'] at hread
    have hentry := Option.some.inj hread
    simp only [AuditRecord.entryWith, Entry.mk.injEq] at hentry
    obtain ⟨hid, hat, hidentity, hwho, hcredential, hact, htarget, houtcome, hreason, hdetail, -⟩ := hentry
    refine ⟨hid.symm, UInt64.toNat_inj.mp hat.symm, hidentity.symm, hcredential.symm, houtcome.symm, hreason.symm, ?_⟩
    simp only [Texts.undash, Texts.mk.injEq]
    exact ⟨hwho.symm, hact.symm, htarget.symm, hdetail.symm⟩

/-- A record of the owner with some detail. -/
def sampleRecord (detail : Str) : AuditRecord asciiAlphabet :=
  ⟨List.replicate 16 0, 0, .owner, .bearer, .exercised .consoleRead, .allow, detail⟩

theorem clip_detail_sampleRecord (detail : Str) : (sampleRecord detail).texts.clip.detail = detail.take maxDetailChars :=
  rfl

/-- A lone dash and no text at all make the same line. -/
theorem dash_forges_empty : (sampleRecord []).line = (sampleRecord ['-']).line ∧
    (sampleRecord []).texts.clip ≠ (sampleRecord ['-']).texts.clip := by
  constructor
  · have hescape : escapeField ['-'] = escapeField [] := by decide
    unfold AuditRecord.line AuditRecord.lineWith AuditRecord.texts sampleRecord
    dsimp only
    rw [hescape]
  · intro h
    have hdetail := congrArg Texts.detail h
    rw [clip_detail_sampleRecord, clip_detail_sampleRecord] at hdetail
    exact absurd hdetail (by decide)

end Selfhost.Admin
