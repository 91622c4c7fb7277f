import WikiPages.Template.Shelf
import WikiPages.Text.Lines

namespace WikiPages.Shelf

def bundledTexts : List (Text × Text) :=
  [("web-page.html",
      ["<!DOCTYPE html>",
        "<html lang=\"$\x7blang\x7d\">",
        "<head>",
        "<meta charset=\"utf-8\">",
        "<title>$\x7btitle\x7d</title>",
        "</head>",
        "<body>",
        "<nav><ul>",
        "$\x7bautomenu:menu-item\x7d",
        "</ul></nav>",
        "<main>",
        "$\x7bcontent\x7d",
        "</main>",
        "</body>",
        "</html>"]),
    ("menu-item.html",
      ["<li><a href=\"$\x7burl\x7d\">$\x7btitle\x7d</a></li>"]),
    ("_default.html",
      ["$\x7bcontent\x7d"]),
    ("section.html",
      ["<section id=\"$\x7bid\x7d\" aria-labelledby=\"$\x7bid\x7d_heading\"><h2 "
          ++ "id=\"$\x7bid\x7d_heading\">$\x7btitle\x7d</h2>",
        "$\x7bcontent\x7d",
        "</section>"]),
    ("list.html",
      ["<ul id=\"$\x7bid\x7d\" title=\"$\x7btitle\x7d\">$\x7bdata:list-item\x7d",
        "$\x7bcontent\x7d",
        "</ul>"]),
    ("list-item.html",
      ["<li class=\"$\x7bstyle\x7d\">$\x7btitle\x7d</li>"]),
    ("action.html",
      ["<a id=\"$\x7bid\x7d\" href=\"$\x7bname\x7d.html\"><button "
          ++ "type=\"button\">$\x7btitle\x7d</button></a>"]),
    ("filter.html",
      ["<form class=\"filter\" id=\"$\x7bid\x7d\"><fieldset><legend>$\x7btitle\x7d</legend>",
        "$\x7bcontent\x7d",
        "</fieldset></form>"]),
    ("form.html",
      ["<form id=\"$\x7bid\x7d\"><fieldset><legend>$\x7btitle\x7d</legend>",
        "$\x7bcontent\x7d",
        "</fieldset></form>"]),
    ("table.html",
      ["<table id=\"$\x7bid\x7d\"><caption>$\x7btitle\x7d</caption>",
        "<thead>$\x7bheader:th@tr\x7d</thead>",
        "<tbody>",
        "$\x7bdata:td@tr\x7d",
        "</tbody>",
        "</table>"]),
    ("th.html",
      ["<th class=\"$\x7bstyle\x7d\">$\x7btitle\x7d</th>"]),
    ("td.html",
      ["<td class=\"$\x7bclass\x7d\">$\x7btitle\x7d</td>"]),
    ("tr.html",
      ["<tr>$\x7bcontent\x7d</tr>"]),
    ("text-input.html",
      ["<label title=\"$\x7bdescription\x7d\">$\x7btitle\x7d<input type=\"text\" "
          ++ "id=\"$\x7bid\x7d\" placeholder=\"$\x7bplaceholder\x7d\" value=\"$\x7bvalue\x7d\">"
          ++ "</label>"]),
    ("select.html",
      ["<label title=\"$\x7bdescription\x7d\" class=\"form-group "
          ++ "$\x7bcustomLabelClasses\x7d\">$\x7btitle\x7d<select id=\"$\x7bid\x7d\" "
          ++ "class=\"$\x7bcustomSelectClasses\x7d\">$\x7bdata:select-item\x7d</select></label>"]),
    ("select-item.html",
      ["<option value=\"$\x7battribute:value\x7d\">$\x7btitle\x7d</option>"]),
    ("label.html",
      ["<span id=\"$\x7bid\x7d\">$\x7btitle\x7d</span>"]),
    ("text.html",
      ["<text id=\"$\x7bid\x7d\">$\x7bdata\x7d</text>"]),
    ("webgen-reporting-specification.wiki",
      ["== $\x7btitle\x7d",
        "\x7btable|Title|Data inputs|Data outputs\x7d"])].map
    fun (name, lines) => (Text.lit name, Text.join Text.lineBreak (lines.map Text.lit))

def bundled : Shelf := memory bundledTexts

end WikiPages.Shelf
