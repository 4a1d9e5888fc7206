/-!
The version that reports and the command line show.
-/
namespace TemplateActions

def versionOf (installed : Option String) : String := installed.getD "0.0.0"

end TemplateActions
