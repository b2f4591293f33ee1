import FontCatalog.Bytes

/-!
# Mac Roman

The eight-bit character set of old Macintosh names. Its lower half is ASCII; the upper half is
the table below, with the euro sign at `0xDB` and a private-use character at `0xF0`.
-/

namespace FontCatalog.Text.MacRoman

/-- The characters of the bytes `0x80` to `0xFF`, in order. -/
def upperHalf : List Char :=
  [ 'Ä', 'Å', 'Ç', 'É', 'Ñ', 'Ö', 'Ü', 'á', 'à', 'â', 'ä', 'ã', 'å', 'ç', 'é', 'è',
    'ê', 'ë', 'í', 'ì', 'î', 'ï', 'ñ', 'ó', 'ò', 'ô', 'ö', 'õ', 'ú', 'ù', 'û', 'ü',
    '†', '°', '¢', '£', '§', '•', '¶', 'ß', '®', '©', '™', '´', '¨', '≠', 'Æ', 'Ø',
    '∞', '±', '≤', '≥', '¥', '\u00B5', '∂', '∑', '∏', 'π', '∫', 'ª', 'º', '\u03A9', 'æ', 'ø',
    '¿', '¡', '¬', '√', 'ƒ', '≈', '\u2206', '«', '»', '…', '\u00A0', 'À', 'Ã', 'Õ', 'Œ', 'œ',
    '–', '—', '“', '”', '‘', '’', '÷', '\u25CA', 'ÿ', 'Ÿ', '\u2044', '€', '‹', '›', 'ﬁ', 'ﬂ',
    '‡', '\u00B7', '‚', '„', '‰', 'Â', 'Ê', 'Á', 'Ë', 'È', 'Í', 'Î', 'Ï', 'Ì', 'Ó', 'Ô',
    '\uF8FF', 'Ò', 'Ú', 'Û', 'Ù', 'ı', '\u02C6', '\u02DC', '\u00AF', '\u02D8', '\u02D9', '\u02DA',
    '\u00B8', '\u02DD', '\u02DB', '\u02C7' ]

/-- The character of one byte. -/
def decodeByte (byte : UInt8) : Char :=
  if byte < 0x80 then Char.ofNat byte.toNat
  else upperHalf.getD (byte.toNat - 0x80) '\uFFFD'

/-- The characters that the bytes spell. -/
def decode (bytes : Bytes) : List Char :=
  bytes.map decodeByte

end FontCatalog.Text.MacRoman
