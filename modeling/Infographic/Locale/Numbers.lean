/-
# Infographic.Locale.Numbers -- digit grouping by locale

Decimal mark, group separator and grouping style of every locale with number
conventions of its own, as the Common Locale Data Repository gives them.  Locale
names are case sensitive.
-/
import Infographic.Text.Cut

namespace Infographic

set_option autoImplicit false

/-- How the whole digits of a number are grouped, from the right. -/
inductive Grouping where
  /-- In threes. -/
  | threes
  /-- Three digits, then twos. -/
  | threeThenTwos
  /-- Not at all. -/
  | none
  deriving Repr, DecidableEq

/-- The number conventions of a named locale. -/
structure NumberConvention where
  name : String
  mark : String
  separator : String
  grouping : Grouping
  deriving Repr, DecidableEq

namespace NumberConvention

/-- Locales with the same conventions, their names separated by spaces. -/
structure Family where
  mark : String
  separator : String
  grouping : Grouping
  names : String

/-- The families of locales. -/
def families : List Family := [
  ⟨",", "\u2019", .threes,
    "wae"⟩,
  ⟨",", "\u202f", .threes,
    "fr fr-BE fr-BF fr-BI fr-BJ fr-BL fr-CD fr-CF fr-CG fr-CH fr-CI fr-CM fr-DJ fr-DZ fr-GA " ++
    "fr-GF fr-GN fr-GP fr-GQ fr-HT fr-KM fr-MC fr-MF fr-MG fr-ML fr-MQ fr-MR fr-MU fr-NC " ++
    "fr-NE fr-PF fr-PM fr-RE fr-RW fr-SC fr-SN fr-SY fr-TD fr-TG fr-TN fr-VU fr-WF fr-YT"⟩,
  ⟨",", ".", .threes,
    "ar-DZ ar-LY ar-MA ar-TN ast az az-Cyrl az-Latn bs bs-Cyrl bs-Latn ca ca-AD " ++
    "ca-ES-VALENCIA ca-FR ca-IT da da-GL de de-BE de-IT de-LU dsb el el-CY en-AT en-BE en-DE " ++
    "en-DK en-NL en-SI es es-AR es-BO es-CL es-CO es-EA es-EC es-GQ es-IC es-PH es-PY es-UY " ++
    "es-VE eu fo fo-DK fr-LU fr-MA fur fy gl hr hr-BA hsb ia id is it it-SM it-VA jgo jv kkj " ++
    "kl km ku lb ln ln-AO ln-CF ln-CG lo lu mgh mk ms-BN mua nl nl-AW nl-BE nl-BQ nl-CW nl-SR " ++
    "nl-SX nnh pt qu-BO rn ro ro-MD rw seh sg sl sr sr-Cyrl sr-Cyrl-BA sr-Cyrl-ME sr-Cyrl-XK " ++
    "sr-Latn sr-Latn-BA sr-Latn-ME sr-Latn-XK sw-CD tr tr-CY vi wo"⟩,
  ⟨",", "\u00a0", .threes,
    "af af-NA agq bas be bg br cs de-AT dua dyo en-FI en-SE en-ZA eo es-CR et ewo ff ff-Latn " ++
    "ff-Latn-BF ff-Latn-CM ff-Latn-GH ff-Latn-GM ff-Latn-GN ff-Latn-GW ff-Latn-LR ff-Latn-MR " ++
    "ff-Latn-NE ff-Latn-NG ff-Latn-SL fi fr-CA hu hy ka kab kea kk ksf ksh ky lt lv nb nb-SJ " ++
    "nmg nn os os-RU pl pt-AO pt-CH pt-CV pt-GQ pt-GW pt-LU pt-MO pt-MZ pt-PT pt-ST pt-TL ru " ++
    "ru-BY ru-KG ru-KZ ru-MD ru-UA sah se se-FI se-SE shi shi-Latn shi-Tfng sk smn sq sq-MK " ++
    "sq-XK sv sv-AX sv-FI tg tk tt tzm uk uz uz-Cyrl uz-Latn yav zgh"⟩,
  ⟨".", "\u2019", .threes,
    "de-CH de-LI en-CH gsw gsw-FR gsw-LI it-CH rm"⟩,
  ⟨".", ",", .threeThenTwos,
    "as bn bn-IN brx ccp ccp-IN dz en-IN gu hi ml mr ne ne-IN or pa pa-Guru ta ta-LK te"⟩,
  ⟨".", ",", .none,
    "en-US-POSIX"⟩,
  ⟨".", ",", .threes,
    "ak am ar-EH asa bem bez bm bo bo-IN ce ceb cgg chr cu cy dav ebu ee ee-TG en en-001 " ++
    "en-150 en-AE en-AG en-AI en-AS en-AU en-BB en-BI en-BM en-BS en-BW en-BZ en-CA en-CC " ++
    "en-CK en-CM en-CX en-CY en-DG en-DM en-ER en-FJ en-FK en-FM en-GB en-GD en-GG en-GH " ++
    "en-GI en-GM en-GU en-GY en-HK en-IE en-IL en-IM en-IO en-JE en-JM en-KE en-KI en-KN " ++
    "en-KY en-LC en-LR en-LS en-MG en-MH en-MO en-MP en-MS en-MT en-MU en-MW en-MY en-NA " ++
    "en-NF en-NG en-NR en-NU en-NZ en-PG en-PH en-PK en-PN en-PR en-PW en-RW en-SB en-SC " ++
    "en-SD en-SG en-SH en-SL en-SS en-SX en-SZ en-TC en-TK en-TO en-TT en-TV en-TZ en-UG " ++
    "en-UM en-VC en-VG en-VI en-VU en-WS en-ZM en-ZW es-419 es-BR es-BZ es-CU es-DO es-GT " ++
    "es-HN es-MX es-NI es-PA es-PE es-PR es-SV es-US fil ga ga-GB gd guz gv ha ha-GH ha-NE " ++
    "haw he ig ii ja jmc kam kde ki kln kn ko ko-KP kok ksb kw lag lg lkt luo luy mas mas-TZ " ++
    "mer mg mgo mi mn ms ms-SG mt my naq nd nds nds-NL nus nyn om om-KE prg qu qu-EC rof root " ++
    "rwk saq sbp si sn so so-DJ so-ET so-KE sw sw-KE sw-UG ta-MY ta-SG teo teo-KE th ti ti-ER " ++
    "to ug ur vai vai-Latn vai-Vaii vo vun xog yi yo yo-BJ yue yue-Hans yue-Hant zh zh-Hans " ++
    "zh-Hans-HK zh-Hans-MO zh-Hans-SG zh-Hant zh-Hant-HK zh-Hant-MO zu"⟩,
  ⟨".", "\u00a0", .threes,
    "dje khq mfe ses twq xh"⟩,
  ⟨"\u066b", "\u066c", .threeThenTwos,
    "ks"⟩,
  ⟨"\u066b", "\u066c", .threes,
    "ar ar-AE ar-BH ar-DJ ar-EG ar-ER ar-IL ar-IQ ar-JO ar-KM ar-KW ar-LB ar-MR ar-OM ar-PS " ++
    "ar-QA ar-SA ar-SD ar-SO ar-SS ar-SY ar-TD ar-YE ckb ckb-IR fa fa-AF lrc lrc-IQ mzn " ++
    "pa-Arab ps ps-PK sd ur-IN uz-Arab"⟩]

/-- The names of a family. -/
def Family.has (f : Family) (name : String) : Bool :=
  (Text.splitAt ' ' f.names.toList).contains name.toList

/-- The conventions of the locale with a given name. -/
def find? (name : String) : Option NumberConvention :=
  (families.find? (·.has name)).map fun f => ⟨name, f.mark, f.separator, f.grouping⟩

end NumberConvention

end Infographic
