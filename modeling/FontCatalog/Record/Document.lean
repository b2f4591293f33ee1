import FontCatalog.Json.Document
import FontCatalog.Record

/-!
# Records in JSON

The JSON documents of records: an object with one member for each field, in a fixed order. The
PANOSE digits are an array of ten numbers, and what is absent is `null`.
-/

namespace FontCatalog

open Json (Document)

/-- The document of a character collection. -/
def CidSystemInfo.document (info : CidSystemInfo) : Document :=
  Document.object
    [ ("registry", Document.string info.registry.toList),
      ("ordering", Document.string info.ordering.toList),
      ("supplement", Document.integer info.supplement.toInt) ]

/-- The document of a PANOSE classification. -/
def Panose.document (panose : Panose) : Document :=
  Document.array (panose.toBytes.map fun digit => Document.integer digit.toNat)

/-- The document of a record. -/
def FontRecord.document (record : FontRecord) : Document :=
  Document.object
    [ ("file", Document.path record.file.text?),
      ("format", Document.string record.format.shortName.toList),
      ("postscript_name", Document.string record.postscriptName.toList),
      ("cid_system_info", Document.optional CidSystemInfo.document record.cidSystemInfo),
      ("weight_class", Document.integer record.weightClass.toInt),
      ("family_class", Document.integer record.familyClass.toInt),
      ("code_page_range_1", Document.integer record.codePageRange1.toNat),
      ("code_page_range_2", Document.integer record.codePageRange2.toNat),
      ("mac_style", Document.integer record.macStyle.toInt),
      ("panose", Document.optional Panose.document record.panose) ]

end FontCatalog
