import FontCatalog.Proofs.KeySearch
import FontCatalog.Proofs.SegmentGrammar
import Mathlib.Data.List.Infix
import Mathlib.Logic.ExistsUnique

/-!
# Decrypting what was encrypted

`Enciphers` says of two strings of bytes, place by place and in plain numbers, that one is the
ciphertext of the other. Encryption gives the only such ciphertext. Both directions move the key on
by the ciphertext, so under one key they stand at the same key in every place and undo each other.
The private portion of a font is therefore its plaintext, wherever the ciphertext is cut.
-/

namespace FontCatalog.Type1

namespace Eexec

variable {key : UInt16} {plain cipher lead : Bytes}

/-- The key behind a ciphertext. -/
def keyBehind (cipher : Bytes) : Nat :=
  cipher.foldl (fun key byte => ((byte.toNat + key) * 52845 + 22719) % 65536) 55665

/-- Every byte of the ciphertext is a byte of the plaintext under the upper half of the key. -/
def Enciphers (plain cipher : Bytes) : Prop :=
  ∀ place : Nat, cipher[place]?.map UInt8.toNat =
    plain[place]?.map fun byte => byte.toNat ^^^ keyBehind (cipher.take place) / 256

/-! ## One key for both directions -/

theorem toNat_nextKey (key : UInt16) (byte : UInt8) :
    (nextKey key byte).toNat = ((byte.toNat + key.toNat) * 52845 + 22719) % 65536 := by
  simp [nextKey]

theorem toNat_keyByte (key : UInt16) : (keyByte key).toNat = key.toNat / 256 := by
  have := key.toNat_lt
  simp only [keyByte, UInt16.toNat_toUInt8, UInt16.toNat_shiftRight]
  rw [show (8 : UInt16).toNat % 16 = 8 by rfl, Nat.shiftRight_eq_div_pow]
  omega

theorem toNat_foldl_nextKey (cipher : Bytes) :
    (cipher.foldl nextKey initialKey).toNat = keyBehind cipher := by
  rw [keyBehind, show 55665 = initialKey.toNat by rfl]
  apply Eq.symm
  apply List.foldl_hom
  intro key byte
  exact (toNat_nextKey key byte).symm

/-- Encryption in terms of places, from any key on. -/
theorem eq_encryptFrom_iff :
    cipher = encryptFrom key plain ↔
      ∀ place : Nat, cipher[place]? =
        plain[place]?.map fun byte => byte ^^^ keyByte ((cipher.take place).foldl nextKey key) := by
  induction plain generalizing key cipher with
  | nil => simp [encryptFrom, List.ext_getElem?_iff]
  | cons byte plain ih =>
      rw [← Nat.and_forall_add_one]
      cases cipher with
      | nil => simp [encryptFrom]
      | cons coded cipher =>
          simp only [encryptFrom, List.cons.injEq, List.getElem?_cons_zero, Option.map_some,
            List.take_zero, List.foldl_nil, Option.some.injEq, List.getElem?_cons_succ,
            List.take_succ_cons, List.foldl_cons]
          apply and_congr_right
          rintro rfl
          exact ih

theorem enciphers_iff : Enciphers plain cipher ↔ cipher = encryptFrom initialKey plain := by
  rw [eq_encryptFrom_iff]
  apply forall_congr'
  intro place
  have inNumbers : (plain[place]?.map fun byte =>
        byte.toNat ^^^ keyBehind (cipher.take place) / 256) =
      (plain[place]?.map fun byte =>
        byte ^^^ keyByte ((cipher.take place).foldl nextKey initialKey)).map UInt8.toNat := by
    rw [Option.map_map]
    congr 1
    funext byte
    rw [Function.comp_apply, UInt8.toNat_xor, toNat_keyByte, toNat_foldl_nextKey]
  rw [inNumbers]
  exact (Option.map_injective fun _ _ => UInt8.toNat_inj.mp).eq_iff

/-! ## There and back -/

theorem decryptFrom_encryptFrom (key : UInt16) (plain : Bytes) :
    decryptFrom key (encryptFrom key plain) = plain := by
  induction plain generalizing key with
  | nil => rfl
  | cons byte plain ih =>
      simp only [encryptFrom, decryptFrom, UInt8.xor_assoc, UInt8.xor_self, UInt8.xor_zero, ih]

theorem encryptFrom_decryptFrom (key : UInt16) (cipher : Bytes) :
    encryptFrom key (decryptFrom key cipher) = cipher := by
  induction cipher generalizing key with
  | nil => rfl
  | cons coded cipher ih =>
      simp only [encryptFrom, decryptFrom, UInt8.xor_assoc, UInt8.xor_self, UInt8.xor_zero, ih]

theorem length_decryptFrom (key : UInt16) (cipher : Bytes) :
    (decryptFrom key cipher).length = cipher.length := by
  induction cipher generalizing key with
  | nil => rfl
  | cons coded cipher ih => simp [decryptFrom, ih]

theorem decryptFrom_append (key : UInt16) (cipher more : Bytes) :
    decryptFrom key (cipher ++ more) =
      decryptFrom key cipher ++ decryptFrom (cipher.foldl nextKey key) more := by
  induction cipher generalizing key with
  | nil => rfl
  | cons coded cipher ih => simp [decryptFrom, ih]

theorem decrypt_encrypt (isLead : lead.length = 4) (plain : Bytes) :
    decrypt (encrypt lead plain) = plain := by
  rw [decrypt, encrypt, decryptFrom_encryptFrom]
  exact List.drop_left' isLead

theorem existsUnique_lead (enough : 4 ≤ cipher.length) :
    ∃! lead : Bytes, lead.length = 4 ∧ encrypt lead (decrypt cipher) = cipher := by
  have isLead : ((decryptFrom initialKey cipher).take 4).length = 4 := by
    rw [List.length_take_of_le]
    rw [length_decryptFrom]
    exact enough
  have isCut : (decryptFrom initialKey cipher).take 4 ++ decrypt cipher =
      decryptFrom initialKey cipher :=
    List.take_append_drop 4 _
  refine ⟨(decryptFrom initialKey cipher).take 4, ⟨isLead, ?_⟩, ?_⟩
  · rw [encrypt, isCut, encryptFrom_decryptFrom]
  · rintro other ⟨isOther, gives⟩
    have sameText : other ++ decrypt cipher = decryptFrom initialKey cipher := by
      rw [← decryptFrom_encryptFrom initialKey (other ++ decrypt cipher)]
      exact congrArg _ gives
    rw [← isCut] at sameText
    exact List.append_cancel_right sameText

theorem length_decrypt (cipher : Bytes) : (decrypt cipher).length = cipher.length - 4 := by
  rw [decrypt, List.length_drop, length_decryptFrom]
  rfl

theorem decrypt_prefix (cipher more : Bytes) : decrypt cipher <+: decrypt (cipher ++ more) := by
  rw [decrypt, decrypt, decryptFrom_append]
  exact (List.prefix_append _ _).drop leadLength

end Eexec

/-! ## The private portion of a font -/

variable {data ending lead plain : Bytes} {segments : List Segment} {name : String}

theorem Font.clearText_ne_nil {clearText : Bytes} (starts : StartsFont clearText) :
    clearText ≠ [] := by
  rintro rfl
  rcases starts with ⟨header, isHeader, begins⟩
  rw [List.prefix_nil] at begins
  simp only [List.mem_cons, List.not_mem_nil, or_false] at isHeader
  rcases isHeader with rfl | rfl
  · exact absurd begins (by decide)
  · exact absurd begins (by decide)

/-- A font that is cut into segments gives back its private portion. -/
theorem Font.exists_privatePortion (cut : Cut data segments ending) (isLead : lead.length = 4)
    (isCipher : Segment.bodiesOf .encrypted segments = Eexec.encrypt lead plain)
    (starts : StartsFont (Segment.portions segments).clearText)
    (names : Dictionary.NamesFont
      (Text.Utf8.decodeLossy (Segment.portions segments).clearText) name.toList) :
    ∃ font, ofBytes data = .ok font ∧ font.privatePortion = plain := by
  rcases exists_ofSegments_eq_ok_iff.mpr ⟨starts, names⟩ with ⟨font, isFont, -⟩
  refine ⟨font, ?_, ?_⟩
  · rw [ofBytes, Segments.split_of_cut cut, if_neg (clearText_ne_nil starts)]
    exact isFont
  · rw [privatePortion, encrypted_of_ofSegments isFont, Segment.portions, isCipher]
    exact Eexec.decrypt_encrypt isLead plain

/-- Decryption undoes encryption and loses only the four bytes in front, which are determined by
the ciphertext. It works byte by byte, so what is decrypted of a ciphertext stays when more of it
comes, and a font gives back its plaintext wherever its ciphertext is cut into segments. -/
theorem Eexec.decrypt_undoes_encrypt :
    (∀ lead plain cipher : Bytes,
      Enciphers (lead ++ plain) cipher ↔ cipher = encrypt lead plain) ∧
      (∀ lead plain : Bytes, lead.length = 4 → decrypt (encrypt lead plain) = plain) ∧
      (∀ cipher : Bytes, 4 ≤ cipher.length →
        ∃! lead : Bytes, lead.length = 4 ∧ encrypt lead (decrypt cipher) = cipher) ∧
      (∀ cipher : Bytes, (decrypt cipher).length = cipher.length - 4) ∧
      (∀ cipher more : Bytes, decrypt cipher <+: decrypt (cipher ++ more)) ∧
      ∀ data segments ending lead plain name, Cut data segments ending → lead.length = 4 →
        Segment.bodiesOf .encrypted segments = encrypt lead plain →
        Font.StartsFont (Segment.portions segments).clearText →
        Dictionary.NamesFont
          (Text.Utf8.decodeLossy (Segment.portions segments).clearText) name →
        ∃ font, Font.ofBytes data = .ok font ∧ font.privatePortion = plain := by
  refine ⟨?_, ?_, ?_, length_decrypt, decrypt_prefix, ?_⟩
  · intro lead plain cipher
    exact enciphers_iff
  · intro lead plain isLead
    exact decrypt_encrypt isLead plain
  · intro cipher enough
    exact existsUnique_lead enough
  · intro data segments ending lead plain name cut isLead isCipher starts names
    rw [← String.toList_ofList (l := name)] at names
    exact Font.exists_privatePortion cut isLead isCipher starts names

namespace Specimen

/-- A cleartext that names its font. -/
def fontText : Bytes :=
  Text.Utf8.encode "%!FontType1\n/FontName /A def".toList

/-- The bytes in front of the private part. -/
def leadBytes : Bytes := [1, 2, 3, 4]

/-- A private part that is still to be encrypted. -/
def privateText : Bytes :=
  Text.Utf8.encode "dup".toList

/-- The ciphertext is cut within the bytes in front and again within the plaintext. -/
def cutCipher : List Segment :=
  [⟨.clear, fontText, by decide⟩, ⟨.encrypted, [216, 5], by decide⟩,
    ⟨.encrypted, [77, 168, 21], by decide⟩, ⟨.encrypted, [35, 210], by decide⟩]

end Specimen

theorem Eexec.decrypt_undoes_encrypt_specimen :
    Specimen.leadBytes.length = 4 ∧
      Segment.bodiesOf .encrypted Specimen.cutCipher =
        encrypt Specimen.leadBytes Specimen.privateText ∧
      decrypt (encrypt Specimen.leadBytes Specimen.privateText) = Specimen.privateText ∧
      (∃! lead : Bytes, lead.length = 4 ∧ encrypt lead (decrypt [216, 5, 77, 168, 21]) =
        [216, 5, 77, 168, 21]) ∧
      ∃ font, Font.ofBytes (Specimen.cutCipher.flatMap Segment.bytes) = .ok font ∧
        font.privatePortion = Specimen.privateText := by
  have isLead : Specimen.leadBytes.length = 4 := by
    decide
  have isCipher : Segment.bodiesOf .encrypted Specimen.cutCipher =
      encrypt Specimen.leadBytes Specimen.privateText := by
    decide
  have isText : (Segment.portions Specimen.cutCipher).clearText = Specimen.fontText := by
    decide
  have starts : Font.StartsFont Specimen.fontText := by
    apply Font.hasFontHeader_iff.mp
    decide +kernel
  have names : Dictionary.NamesFont (Text.Utf8.decodeLossy Specimen.fontText) "A".toList := by
    apply Dictionary.nameUnder?_fontName_eq_some_iff.mp
    decide +kernel
  have cut : Cut (Specimen.cutCipher.flatMap Segment.bytes) Specimen.cutCipher [] :=
    ⟨(List.append_nil _).symm, .endOfFile⟩
  rcases decrypt_undoes_encrypt with ⟨-, undoes, leads, -, -, gives⟩
  rw [← isText] at starts names
  refine ⟨isLead, isCipher, undoes _ _ isLead, leads _ (by decide), ?_⟩
  exact gives _ _ _ _ _ _ cut isLead isCipher starts names

end FontCatalog.Type1
