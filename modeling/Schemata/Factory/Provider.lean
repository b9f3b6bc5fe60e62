import Schemata.Shorthand.Argument

/-!
Fake data for factory fields: the provider that suits a column by its name, or else by its type. The name rules are tried in
order; a rule lists whole names, or endings that stand alone or after an underscore.
-/

namespace Schemata.Factory

open Schemata.Shorthand

/-- Names that ask for a provider. -/
structure NameRule where
  /-- Names that fit as a whole. -/
  names : List String
  /-- Names that fit as a whole or after an underscore. -/
  endings : List String
  provider : String

def NameRule.fits (r : NameRule) (name : List Char) : Bool :=
  r.names.any (·.toList == name) ||
    r.endings.any fun ending => ending.toList == name || ('_' :: ending.toList).isSuffixOf name

/-- Every start with every end. -/
def combine (starts ends : List String) : List String :=
  starts.flatMap fun s => ends.map (s ++ ·)

def nameRules : List NameRule :=
  [⟨[], combine ["email", "mail"] ["", "_address"], "safeEmail()"⟩,
   ⟨["username", "user_name", "login", "nickname"], [], "userName()"⟩,
   ⟨["first_name", "firstname"], [], "firstName()"⟩,
   ⟨["last_name", "lastname", "surname"], [], "lastName()"⟩,
   ⟨["name", "full_name"], [], "name()"⟩,
   ⟨[], combine ["company"] ["", "_name"], "company()"⟩,
   ⟨[], combine ["phone", "mobile", "telephone"] ["", "_number"], "phoneNumber()"⟩,
   ⟨[], ["address", "street"], "streetAddress()"⟩,
   ⟨[], ["city"], "city()"⟩,
   ⟨[], ["state", "province"], "state()"⟩,
   ⟨[], ["zip", "zip_code", "postcode", "postal_code"], "postcode()"⟩,
   ⟨[], ["country"], "country()"⟩,
   ⟨[], ["url", "website", "link"], "url()"⟩,
   ⟨["slug"], [], "slug()"⟩,
   ⟨[], ["uuid"], "uuid()"⟩,
   ⟨[], combine ["ip"] ["", "_address"], "ipv4()"⟩,
   ⟨[], ["color", "colour"], "hexColor()"⟩,
   ⟨["latitude"], [], "latitude()"⟩,
   ⟨["longitude"], [], "longitude()"⟩,
   ⟨["password"], [], "password()"⟩,
   ⟨["title", "subject", "headline"], [], "sentence(4)"⟩,
   ⟨[], ["description", "summary", "excerpt"], "text()"⟩,
   ⟨["body", "content"], [], "paragraphs(3, true)"⟩,
   ⟨[], ["price", "amount", "cost", "total"], "randomFloat(2, 1, 1000)"⟩]

/-- The provider of a column name. -/
def providerForName? (name : String) : Option String :=
  (nameRules.find? (·.fits name.toList)).map (·.provider)

/-- Types with the provider that suits all their columns. -/
def typeRules : List (List String × String) :=
  [(["string", "char"], "word()"),
   (["text", "mediumText", "longText", "tinyText"], "paragraph()"),
   (["integer", "bigInteger", "mediumInteger", "smallInteger", "tinyInteger", "unsignedInteger", "unsignedBigInteger",
     "unsignedMediumInteger", "unsignedSmallInteger", "unsignedTinyInteger"], "randomNumber()"),
   (["boolean"], "boolean()"),
   (["date"], "date()"),
   (["dateTime", "dateTimeTz", "timestamp", "timestampTz"], "dateTime()"),
   (["time", "timeTz"], "time()"),
   (["year"], "year()"),
   (["decimal", "unsignedDecimal", "float", "double"], "randomFloat(2)"),
   (["uuid", "ulid"], "uuid()"),
   (["ipAddress"], "ipv4()"),
   (["macAddress"], "macAddress()")]

/-- The provider of a column type. An enumeration draws from its choices. -/
def providerForType? (type : String) (arguments : List Argument) : Option String :=
  if ["enum", "set"].contains type && !arguments.isEmpty then
    some ("randomElement([" ++ ", ".intercalate (arguments.map Argument.render) ++ "])")
  else (typeRules.find? (·.1.contains type)).map Prod.snd

/-- The provider of a column, by its name first. -/
def provider? (name type : String) (arguments : List Argument) : Option String :=
  (providerForName? name).orElse fun _ => providerForType? type arguments

end Schemata.Factory
