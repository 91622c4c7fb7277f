import WikiPages.Template.Cabinet

namespace WikiPages

inductive DataFault where
  | malformed
  | unreadable (path : Text) (error : FileError)
  deriving DecidableEq

namespace DataFault

def message : DataFault → Text
  | malformed => Text.lit "XML parsing error"
  | unreadable path error =>
    Text.lit "Failed to read data source '" ++ path ++ Text.lit "': " ++ error.message

end DataFault

inductive LocatorFault where
  | empty
  | data (fault : DataFault)
  deriving DecidableEq

namespace LocatorFault

def message : LocatorFault → Text
  | empty => Text.lit "empty locator"
  | data fault => fault.message

end LocatorFault

inductive SettingsFault where
  | noSpecification
  | noTemplateDirectory (path : Text)
  -- The report's data could not be named after this title.
  | reportTitle (title : Text)
  -- The settings cannot be read; the file they come from, if they come from one.
  | invalid (path : Option Text)
  deriving DecidableEq

namespace SettingsFault

def message : SettingsFault → Text
  | noSpecification =>
    Text.lit "No specification has been configured. "
      ++ Text.lit "Use \x60with_specification\x60 or \x60with_specification_file\x60."
  | noTemplateDirectory path =>
    Text.lit "Template directory '" ++ path ++ Text.lit "' does not exist"
  | reportTitle title => Text.lit "Report title '" ++ title ++ Text.lit "' must start with a letter"
  | invalid none => Text.lit "Invalid configuration"
  | invalid (some path) => Text.lit "Invalid configuration in '" ++ path ++ Text.lit "'"

end SettingsFault

inductive Fault where
  | missingTemplate (file : Text)
  | unreadableTemplate (file : Text) (fault : ShelfFault)
  | locator (path : Text) (fault : LocatorFault)
  | data (fault : DataFault)
  | file (error : FileError)
  | settings (fault : SettingsFault)
  deriving DecidableEq

namespace Fault

def message : Fault → Text
  | missingTemplate name => Text.lit "Template not found: '" ++ name ++ Text.lit "'"
  | unreadableTemplate name fault =>
    Text.lit "Template error: " ++ (TemplateFault.unreadable name fault).message
  | locator path fault =>
    Text.lit "Invalid data locator '" ++ path ++ Text.lit "': " ++ fault.message
  | data fault => Text.lit "Data source error: " ++ fault.message
  | file error => Text.lit "I/O error: " ++ error.message
  | settings fault => fault.message

def ofTemplate : TemplateFault → Fault
  | .missing name => missingTemplate name
  | .unreadable name fault => unreadableTemplate name fault

end Fault
end WikiPages
